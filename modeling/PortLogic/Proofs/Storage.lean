import PortLogic.Proofs.Json.Plain
import PortLogic.Storage.State

/-!
# PortLogic.Proofs.Storage — configurations stored and loaded

A configuration is written as a record without its empty parts, and an absent field is read as the
part that was left out, so a record reads back as the configuration (`ofJson?_toJson`). With every
stored number finite, a lawful format has a text for the record and reads it back, and loading the
state file undoes saving it (`load_saved`).
-/

namespace PortLogic

-- powers of naturals are the built-in ones, whatever algebra is in scope
attribute [local instance (2000)] instPowNat

/-! ## Fields -/

namespace Json

theorem mapM_keyed (members : List (String × Json)) :
    ((members.map keyed).mapM fun (key, value) => key.map (·, value)) = some members := by
  induction members with
  | nil => rfl
  | cons member members ih =>
    rw [List.map_cons, List.mapM_cons, ih]
    rfl

/-- A record of known fields in their order has these fields. -/
theorem fields?_record {names : List String} {members : List (String × Json)}
    (hnames : (members.map (·.1)).Sublist names) (hnodup : names.Nodup) :
    (record members).fields? names = some members := by
  rw [record_eq, fields?, members?, mapM_keyed, Option.bind_eq_bind, Option.bind_some]
  simp only
  rw [List.filter_eq_self.mpr, if_pos (hnodup.sublist hnames)]
  · rfl
  · intro member hmember
    exact List.contains_iff_mem.mpr (hnames.subset (List.mem_map_of_mem hmember))

theorem lookup_single (name key : String) (j : Json) :
    [(name, j)].lookup key = if key = name then some j else none := by
  rw [List.lookup_cons, List.lookup_nil]
  by_cases h : key = name
  · rw [if_pos h, beq_iff_eq.mpr h]
  · rw [if_neg h, beq_eq_false_iff_ne.mpr h]

theorem lookup_numberField (name key : String) (x : Option Number) :
    (numberField name x).lookup key = if key = name then x.map .real else none := by
  cases x with
  | none => simp [numberField]
  | some x => exact lookup_single name key (.real x)

theorem lookup_sourceField (name key source : String) :
    (sourceField name source).lookup key =
      if key = name ∧ source ≠ "" then some (.text source) else none := by
  by_cases hempty : source = ""
  · simp [sourceField, hempty]
  · simp [sourceField, hempty, lookup_single]

theorem toUInt64?_ofUInt64 (n : UInt64) : (ofUInt64 n).toUInt64? = some n := by
  have hlt := n.toNat_lt
  unfold ofUInt64 toUInt64?
  simp only
  rw [if_pos (by omega)]
  simp

theorem bind_of_eq_some {α β : Type} {x : Option α} {a : α} (h : x = some a)
    (f : α → Option β) : x >>= f = f a := by
  rw [h]
  rfl

/-- A number that is left out when it is absent is read as it was. -/
theorem read?_number {fields : Fields} {name : String} {x : Option Number}
    (h : fields.lookup name = x.map .real) :
    fields.read? name (toOption? toNumber?) none = some x := by
  unfold Fields.read?
  rw [h]
  cases x with
  | none => rfl
  | some x => rfl

/-- A source that is left out when it is empty is read as it was. -/
theorem read?_source {fields : Fields} {name source : String}
    (h : fields.lookup name = if source ≠ "" then some (.text source) else none) :
    fields.read? name toText? "" = some source := by
  unfold Fields.read?
  rw [h]
  by_cases hempty : source = ""
  · rw [if_neg (not_not.mpr hempty), hempty]
  · rw [if_pos hempty]
    rfl

/-- A field that is always written is read as it was. -/
theorem read?_of_lookup {α : Type} {fields : Fields} {name : String} {read : Json → Option α}
    {a initial : α} (value : Json) (hread : read value = some a)
    (h : fields.lookup name = some value) : fields.read? name read initial = some a := by
  unfold Fields.read?
  rw [h]
  exact hread

end Json

theorem PortKind.toNamed?_name (kind : PortKind) :
    (Json.text kind.name).toNamed? PortKind.named = some kind := by
  cases kind <;> rfl

theorem FilterKind.toNamed?_name (kind : FilterKind) :
    (Json.text kind.name).toNamed? FilterKind.named = some kind := by
  cases kind <;> rfl

/-! ## Configurations -/

namespace PortConfig

/-- The fields that a configuration is written with. -/
def fields (c : PortConfig) : Json.Fields :=
  [("id", .text c.id),
    ("kind", .text c.kind.name),
    ("output", .bool c.output),
    ("virtual", .bool c.isVirtual),
    ("enabled", .bool c.enabled),
    ("persisted", .bool c.persisted),
    ("sampling_interval_ms", .ofUInt64 c.samplingInterval),
    ("filter", .text c.filter.name),
    ("filter_width", .ofUInt64 c.filterWidth)] ++
  Json.numberField "min" c.min ++ Json.numberField "max" c.max ++
  Json.sourceField "expression" c.expression ++
  Json.sourceField "read_transform" c.readTransform ++
  Json.sourceField "write_transform" c.writeTransform ++
  Json.numberField "value" c.value

theorem toJson_eq (c : PortConfig) : c.toJson = .record c.fields := rfl

theorem fields?_toJson (c : PortConfig) : c.toJson.fields? fieldNames = some c.fields := by
  have hnumber (name : String) (x : Option Number) :
      ((Json.numberField name x).map (·.1)).Sublist [name] := by
    cases x <;> simp [Json.numberField]
  have hsource (name source : String) :
      ((Json.sourceField name source).map (·.1)).Sublist [name] := by
    unfold Json.sourceField
    split <;> simp
  rw [toJson_eq]
  refine Json.fields?_record ?_ (by decide +kernel)
  unfold fields
  simp only [List.map_append]
  have hnames := ((((((List.Sublist.refl ["id", "kind", "output", "virtual", "enabled", "persisted",
    "sampling_interval_ms", "filter", "filter_width"]).append (hnumber "min" c.min)).append
    (hnumber "max" c.max)).append (hsource "expression" c.expression)).append
    (hsource "read_transform" c.readTransform)).append
    (hsource "write_transform" c.writeTransform)).append (hnumber "value" c.value)
  exact hnames

attribute [local simp] fields List.lookup_append List.lookup_cons Json.lookup_numberField
  Json.lookup_sourceField

/-- A configuration reads back as it was written. -/
theorem ofJson?_toJson (c : PortConfig) : ofJson? c.toJson = some c := by
  have hid : c.fields.read? "id" Json.toText? initial.id = some c.id :=
    Json.read?_of_lookup (.text c.id) rfl (by simp)
  have hkind : c.fields.read? "kind" (Json.toNamed? PortKind.named) initial.kind = some c.kind :=
    Json.read?_of_lookup (.text c.kind.name) c.kind.toNamed?_name (by simp)
  have houtput : c.fields.read? "output" Json.toBool? initial.output = some c.output :=
    Json.read?_of_lookup (.bool c.output) rfl (by simp)
  have hvirtual : c.fields.read? "virtual" Json.toBool? initial.isVirtual = some c.isVirtual :=
    Json.read?_of_lookup (.bool c.isVirtual) rfl (by simp)
  have henabled : c.fields.read? "enabled" Json.toBool? initial.enabled = some c.enabled :=
    Json.read?_of_lookup (.bool c.enabled) rfl (by simp)
  have hpersisted : c.fields.read? "persisted" Json.toBool? initial.persisted = some c.persisted :=
    Json.read?_of_lookup (.bool c.persisted) rfl (by simp)
  have hinterval : c.fields.read? "sampling_interval_ms" Json.toUInt64? initial.samplingInterval =
      some c.samplingInterval :=
    Json.read?_of_lookup (.ofUInt64 c.samplingInterval) (Json.toUInt64?_ofUInt64 _) (by simp)
  have hfilter : c.fields.read? "filter" (Json.toNamed? FilterKind.named) initial.filter =
      some c.filter :=
    Json.read?_of_lookup (.text c.filter.name) c.filter.toNamed?_name (by simp)
  have hwidth : c.fields.read? "filter_width" Json.toUInt64? initial.filterWidth =
      some c.filterWidth :=
    Json.read?_of_lookup (.ofUInt64 c.filterWidth) (Json.toUInt64?_ofUInt64 _) (by simp)
  have hmin : c.fields.read? "min" (Json.toOption? Json.toNumber?) initial.min = some c.min :=
    Json.read?_number (by simp)
  have hmax : c.fields.read? "max" (Json.toOption? Json.toNumber?) initial.max = some c.max :=
    Json.read?_number (by simp)
  have hexpression : c.fields.read? "expression" Json.toText? initial.expression =
      some c.expression := Json.read?_source (by simp)
  have hreading : c.fields.read? "read_transform" Json.toText? initial.readTransform =
      some c.readTransform := Json.read?_source (by simp)
  have hwriting : c.fields.read? "write_transform" Json.toText? initial.writeTransform =
      some c.writeTransform := Json.read?_source (by simp)
  have hvalue : c.fields.read? "value" (Json.toOption? Json.toNumber?) initial.value =
      some c.value := Json.read?_number (by simp)
  unfold ofJson?
  rw [Json.bind_of_eq_some (fields?_toJson c), Json.bind_of_eq_some hid,
    Json.bind_of_eq_some hkind, Json.bind_of_eq_some houtput, Json.bind_of_eq_some hvirtual,
    Json.bind_of_eq_some henabled, Json.bind_of_eq_some hpersisted,
    Json.bind_of_eq_some hinterval, Json.bind_of_eq_some hfilter, Json.bind_of_eq_some hwidth,
    Json.bind_of_eq_some hmin, Json.bind_of_eq_some hmax, Json.bind_of_eq_some hexpression,
    Json.bind_of_eq_some hreading, Json.bind_of_eq_some hwriting, Json.bind_of_eq_some hvalue]
  rfl

/-- A list of configurations reads back as it was written. -/
theorem listOfJson?_listToJson (configs : List PortConfig) :
    listOfJson? (listToJson configs) = some configs := by
  show (configs.map toJson).mapM ofJson? = some configs
  induction configs with
  | nil => rfl
  | cons c configs ih =>
    rw [List.map_cons, List.mapM_cons, ofJson?_toJson, ih]
    rfl

/-! ## Texts -/

/-- Every number that is stored is finite. -/
def Storable (c : PortConfig) : Prop :=
  ∀ v ∈ [c.min, c.max, c.value], ∀ x ∈ v, x.isFinite = true

instance (c : PortConfig) : Decidable c.Storable :=
  inferInstanceAs (Decidable (∀ v ∈ [c.min, c.max, c.value], ∀ x ∈ v, x.isFinite = true))

/-- Every field has a text and nothing is nested in it. -/
theorem fields_writable {c : PortConfig} (h : c.Storable) :
    ∀ m ∈ c.fields, m.2.Writable ∧ m.2.depth = 0 := by
  have hnumber {name : String} {x : Option Number} (hx : ∀ y ∈ x, y.isFinite = true) :
      ∀ m ∈ Json.numberField name x, m.2.Writable ∧ m.2.depth = 0 := by
    cases x with
    | none => simp [Json.numberField]
    | some y => simpa [Json.numberField] using ⟨Json.Writable.real (hx y rfl), rfl⟩
  have hsource (name source : String) :
      ∀ m ∈ Json.sourceField name source, m.2.Writable ∧ m.2.depth = 0 := by
    unfold Json.sourceField
    split
    · simp
    · simpa using ⟨Json.Writable.text source, rfl⟩
  have hwidth (n : UInt64) : (Json.ofUInt64 n).Writable ∧ (Json.ofUInt64 n).depth = 0 := by
    have hlt := n.toNat_lt
    exact ⟨Json.Writable.integer (by omega) (by omega), rfl⟩
  unfold fields
  simp only [List.forall_mem_append]
  have hbase : ∀ m ∈ [("id", Json.text c.id), ("kind", .text c.kind.name),
      ("output", .bool c.output), ("virtual", .bool c.isVirtual), ("enabled", .bool c.enabled),
      ("persisted", .bool c.persisted), ("sampling_interval_ms", .ofUInt64 c.samplingInterval),
      ("filter", .text c.filter.name), ("filter_width", .ofUInt64 c.filterWidth)],
      m.2.Writable ∧ m.2.depth = 0 := by
    simp only [List.forall_mem_cons]
    exact ⟨⟨.text _, rfl⟩, ⟨.text _, rfl⟩, ⟨.bool _, rfl⟩, ⟨.bool _, rfl⟩, ⟨.bool _, rfl⟩,
      ⟨.bool _, rfl⟩, hwidth _, ⟨.text _, rfl⟩, hwidth _, by simp⟩
  exact ⟨⟨⟨⟨⟨⟨hbase, hnumber (h c.min (by simp))⟩, hnumber (h c.max (by simp))⟩, hsource _ _⟩,
    hsource _ _⟩, hsource _ _⟩, hnumber (h c.value (by simp))⟩

theorem listToJson_writable {configs : List PortConfig} (h : ∀ c ∈ configs, c.Storable) :
    (listToJson configs).Writable := by
  refine Json.Writable.array ?_
  rw [List.forall_mem_map]
  intro c hc
  rw [toJson_eq]
  exact Json.Writable.record fun m hm => (fields_writable (h c hc) m hm).1

/-- A state file is a list of records of leaves. -/
theorem listToJson_depth {configs : List PortConfig} (h : ∀ c ∈ configs, c.Storable) :
    (listToJson configs).depth ≤ 2 := by
  refine Json.depth_array_le (n := 1) ?_
  rw [List.forall_mem_map]
  intro c hc
  rw [toJson_eq]
  exact Json.depth_record_le fun m hm => Nat.le_of_eq (fields_writable (h c hc) m hm).2

/-- The text of a state file is read as the list. -/
theorem read_stateText [JsonFormat] [LawfulJsonFormat] {configs : List PortConfig}
    (h : ∀ c ∈ configs, c.Storable) :
    (JsonFormat.read (stateText configs)).bind listOfJson? = some configs := by
  have hdepth : (listToJson configs).depth ≤ Json.maxNesting :=
    Nat.le_trans (listToJson_depth h) (by decide)
  rw [stateText, JsonFormat.read_write (listToJson_writable h) hdepth, Option.bind_some,
    listOfJson?_listToJson]

end PortConfig

/-! ## Files -/

theorem Document.text_file (text : String) : (Document.file text.toUTF8).text = .ok text := by
  have hvalid : String.fromUTF8? text.toUTF8 = some text := by
    have hbytes : text.toUTF8.IsValidUTF8 := text.isValidUTF8
    rw [String.fromUTF8?, dif_pos hbytes]
    rfl
  unfold Document.text
  simp only
  rw [hvalid]

/-- A document that holds the text of a value is read as that value. -/
theorem Document.readAs_file [JsonFormat] {α : Type} {read : Json → Option α} {text : String}
    {a : α} (h : (JsonFormat.read text).bind read = some a) :
    (Document.file text.toUTF8).readAs read = .ok a := by
  unfold Document.readAs
  rw [Document.text_file, Except.bind, h]

namespace Folder

theorem document_put (f : Folder) (name : String) (bytes : ByteArray) :
    (f.put name bytes).document name = .file bytes := by
  unfold document put
  rw [List.lookup_cons_self]

theorem document_rename_put (f : Folder) (source target : String) (bytes : ByteArray) :
    ((f.put source bytes).rename source target).document target = .file bytes := by
  have hsource : (f.put source bytes).files.lookup source = some bytes := List.lookup_cons_self
  unfold rename
  rw [hsource]
  exact document_put _ target bytes

/-- Loading undoes saving: with a lawful format, the text of a state file is accepted and lists what
was saved, and a folder that can be written has that state file after a save. -/
theorem load_saved [JsonFormat] [LawfulJsonFormat] {configs : List PortConfig}
    (h : ∀ c ∈ configs, c.Storable) :
    (Document.file (PortConfig.stateText configs).toUTF8).configs = .ok configs ∧
      ∀ f : Folder, f.writable = true →
        ∃ saved, f.saveState configs = (.ok (), saved) ∧ saved.loadState = .ok configs := by
  have hconfigs : (Document.file (PortConfig.stateText configs).toUTF8).configs = .ok configs :=
    Document.readAs_file (PortConfig.read_stateText h)
  refine ⟨hconfigs, fun f hwritable => ?_⟩
  unfold saveState
  rw [if_pos hwritable]
  refine ⟨_, rfl, ?_⟩
  rw [loadState, document_rename_put, hconfigs]

attribute [local instance] JsonFormat.plain

/-- Texts with quotes, control characters and a character of two units, the largest integer, and
numbers at both ends of the format. -/
theorem load_saved_mixed :
    let configs : List PortConfig :=
      [{ PortConfig.initial with
          id := "a\"\\\u0001\n\u007f\u00e9𝄞", kind := .boolean, enabled := false,
          samplingInterval := 18446744073709551615, filter := .median, filterWidth := 0,
          min := some (-0), max := some (.ofDecimal false ⟨17976931348623157, 292⟩),
          expression := "ADD($b, 1)", value := some (.ofDecimal true ⟨5, -324⟩) },
        PortConfig.initial]
    (∀ c ∈ configs, c.Storable) ∧
      (Document.file (PortConfig.stateText configs).toUTF8).configs = .ok configs ∧
      ∀ f : Folder, f.writable = true →
        ∃ saved, f.saveState configs = (.ok (), saved) ∧ saved.loadState = .ok configs := by
  intro configs
  have hstorable : ∀ c ∈ configs, c.Storable := by decide +kernel
  exact ⟨hstorable, load_saved hstorable⟩

end Folder

end PortLogic

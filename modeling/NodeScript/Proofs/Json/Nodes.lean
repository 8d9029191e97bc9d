import NodeScript.Json.Codec
import NodeScript.Proofs.Json.Reading

/-!
# Nodes that are written as JSON

Nodes are read back from the JSON values that they are, and so from both texts of these values, if
they hold no floating-point numbers.
-/

namespace NodeScript

/-! ## Reading back from values -/

theorem mapM_map_eq_self {α β : Type} {f : β → Option α} {g : α → β} (h : ∀ a, f (g a) = some a)
    (as : List α) : (as.map g).mapM f = some as := by
  induction as with
  | nil => rfl
  | cons a as ih =>
      rw [List.map_cons, List.mapM_cons, h, ih]
      rfl

theorem Scalar.ofJson?_toJson (s : Scalar) : Scalar.ofJson? s.toJson = some s := by
  cases s with
  | int i => simp [toJson, ofJson?, Json.asInt64?, Decimal.toInt64?_toInt]
  | bool b => rfl
  | float x => rfl
  | text s => rfl

theorem Scalar.toJson_ne_null (s : Scalar) : s.toJson ≠ .null := by
  cases s <;> simp [toJson]

namespace Json

theorem optional?_some {α : Type} {read : Json → Option α} {v : Json} (hv : v ≠ .null) :
    optional? read (some v) = (read v).map some := by
  cases v with
  | null => exact absurd rfl hv
  | _ => rfl

/-- A value that may be missing is read back, if it is not written as what is missing. -/
theorem optional?_ofOption {α : Type} {read : Json → Option α} {write : α → Json}
    (hr : ∀ a, read (write a) = some a) (hn : ∀ a, write a ≠ .null) (o : Option α) :
    optional? read (some (ofOption (o.map write))) = some o := by
  cases o with
  | none => rfl
  | some a =>
      rw [Option.map_some, ofOption, optional?_some (hn a), hr]
      rfl

theorem asTagged?_tagged (outer : Nat) (kind : String) (content : Json) :
    asTagged? outer (tagged kind content) = some (kind, content) := by
  have fields : (tagged kind content).fields? ["kind", "value"] =
      some [some (.str kind), some content] := by
    simp [tagged, fields?]
  have first : (tagged kind content).comesBefore "value" "kind" = false := by
    simp [tagged, comesBefore]
  simp [asTagged?, fields, first, asKind?]

theorem onlyList?_list {α : Type} {read : Json → Option α} {write : α → Json}
    (h : ∀ a, read (write a) = some a) (name : String) (as : List α) :
    onlyList? name read (.obj [(name, .arr (as.map write))]) = some as := by
  have fields : (Json.obj [(name, .arr (as.map write))]).fields? [name] =
      some [some (.arr (as.map write))] := by
    simp [fields?]
  simp [onlyList?, fields, asList?, mapM_map_eq_self h]

end Json

theorem Channel.ofJson?_toJson (c : Channel) : Channel.ofJson? c.toJson = some c := by
  have fields : c.toJson.fields? ["name", "value"] =
      some [some (.str c.name), some (.ofOption (c.value.map Scalar.toJson))] := by
    simp [toJson, Json.fields?]
  have value := Json.optional?_ofOption Scalar.ofJson?_toJson Scalar.toJson_ne_null c.value
  simp [ofJson?, fields, Json.asText?, value]

theorem Keyframe.ofJson?_toJson (k : Keyframe) : Keyframe.ofJson? k.toJson = some k := by
  have fields : k.toJson.fields? ["frame", "value"] =
      some [some (.int k.frame.toInt), some k.value.toJson] := by
    simp [toJson, Json.fields?]
  simp [ofJson?, fields, Json.asInt64?, Decimal.toInt64?_toInt, Scalar.ofJson?_toJson]

theorem Value.ofJson?_toJson (v : Value) : Value.ofJson? v.toJson = some v := by
  cases v with
  | scalar s => simp [toJson, ofJson?, Json.asTagged?_tagged, Scalar.ofJson?_toJson]
  | multi m =>
      simp [toJson, ofJson?, Json.asTagged?_tagged, Json.onlyList?_list Channel.ofJson?_toJson]
  | animated c =>
      simp [toJson, ofJson?, Json.asTagged?_tagged, Json.onlyList?_list Keyframe.ofJson?_toJson]
  | block text => simp [toJson, ofJson?, Json.asTagged?_tagged, Json.asText?]

theorem Attribute.ofJson?_toJson (a : Attribute) : Attribute.ofJson? a.toJson = some a := by
  have fields : a.toJson.fields? ["name", "value"] =
      some [some (.str a.name), some a.value.toJson] := by
    simp [toJson, Json.fields?]
  simp [ofJson?, fields, Json.asText?, Value.ofJson?_toJson]

theorem Binding.isSoundWithin_toJson (b : Binding) (levels : Nat) :
    b.toJson.isSoundWithin (levels + 1) := by
  cases b <;> simp [toJson, Json.isSoundWithin, Json.areSoundFieldsWithin]

theorem Binding.ofJson?_toJson (b : Binding) : Binding.ofJson? b.toJson = some b := by
  have sound : b.toJson.isSoundWithin (Json.nestingLimit - 2) := b.isSoundWithin_toJson 124
  rcases b with ⟨name, index⟩ | ⟨name⟩
  · have command : commandOf? (toJson (.assign name index)) = some ("assign",
        .obj [("variable_name", .str name), ("stack_index", .int index.toNat)]) := by
      simp [toJson, commandOf?]
    have fields : (Json.obj [("variable_name", .str name),
        ("stack_index", .int index.toNat)]).fields? ["variable_name", "stack_index"] =
        some [some (.str name), some (.int index.toNat)] := by
      simp [Json.fields?]
    simp [ofJson?, sound, command, fields, Json.asText?, Json.asUInt64?, Decimal.toUInt64?_toNat]
  · have command : commandOf? (toJson (.recall name)) = some ("recall",
        .obj [("variable_name", .str name)]) := by
      simp [toJson, commandOf?]
    have fields : (Json.obj [("variable_name", .str name)]).fields? ["variable_name"] =
        some [some (.str name)] := by
      simp [Json.fields?]
    simp [ofJson?, sound, command, fields, Json.asText?]

theorem Binding.toJson_ne_null (b : Binding) : b.toJson ≠ .null := by
  cases b <;> simp [toJson]

theorem Node.ofJson?_toJson (n : Node) : Node.ofJson? n.toJson = some n := by
  have fields : n.toJson.fields? ["class_name", "binding", "attributes"] =
      some [some (.str n.className), some (.ofOption (n.binding.map Binding.toJson)),
        some (.arr (n.attributes.map Attribute.toJson))] := by
    simp [toJson, Json.fields?]
  have binding := Json.optional?_ofOption Binding.ofJson?_toJson Binding.toJson_ne_null n.binding
  simp [ofJson?, fields, Json.asText?, Json.asList?, binding,
    mapM_map_eq_self Attribute.ofJson?_toJson]

/-! ## Texts of nodes -/

/-- Whether a scalar is a floating-point number. -/
def Scalar.isFloating : Scalar → Bool
  | .float _ => true
  | _ => false

/-- The scalars in a value. -/
def Value.scalars : Value → List Scalar
  | .scalar s => [s]
  | .multi m => m.values
  | .animated c => c.keyframes.map Keyframe.value
  | .block _ => []

/-- The scalars in the values of the knobs. -/
def Node.scalars (n : Node) : List Scalar :=
  n.attributes.flatMap (·.value.scalars)

theorem Json.isPlain_arr {α : Type} {write : α → Json} {as : List α}
    (h : ∀ a ∈ as, (write a).isPlain) : (Json.arr (as.map write)).isPlain := by
  rw [isPlain]
  induction as with
  | nil => rfl
  | cons a as ih =>
      obtain ⟨ha, has⟩ := List.forall_mem_cons.1 h
      exact Bool.and_eq_true_iff.2 ⟨ha, ih has⟩

theorem Json.isPlain_tagged (kind : String) {content : Json} (h : content.isPlain) :
    (tagged kind content).isPlain := by
  simp [tagged, isPlain, arePlainFields, h]

theorem Json.isPlain_only (name : String) {content : Json} (h : content.isPlain) :
    (Json.obj [(name, content)]).isPlain := by
  simp [isPlain, arePlainFields, h]

theorem Scalar.isPlain_toJson {s : Scalar} (h : s.isFloating = false) : s.toJson.isPlain := by
  cases s with
  | int i => exact decide_eq_true (Json.Number.fits_int64 i)
  | float x => cases h
  | bool b => rfl
  | text s => rfl

theorem Channel.isPlain_toJson {c : Channel} (h : ∀ s ∈ c.value, s.isFloating = false) :
    c.toJson.isPlain := by
  have value : (Json.ofOption (c.value.map Scalar.toJson)).isPlain := by
    cases hc : c.value with
    | none => rfl
    | some s => exact Scalar.isPlain_toJson (h s hc)
  simp [toJson, Json.isPlain, Json.arePlainFields, value]

theorem Keyframe.isPlain_toJson {k : Keyframe} (h : k.value.isFloating = false) :
    k.toJson.isPlain := by
  simp [toJson, Json.isPlain, Json.arePlainFields, Json.Number.fits_int64, Scalar.isPlain_toJson h]

theorem Value.isPlain_toJson {v : Value} (h : ∀ s ∈ v.scalars, s.isFloating = false) :
    v.toJson.isPlain := by
  cases v with
  | scalar s => exact Json.isPlain_tagged _ (Scalar.isPlain_toJson (h s List.mem_cons_self))
  | multi m =>
      refine Json.isPlain_tagged _ (Json.isPlain_only _ (Json.isPlain_arr fun c hc => ?_))
      exact Channel.isPlain_toJson fun s hs => h s (List.mem_filterMap.2 ⟨c, hc, hs⟩)
  | animated c =>
      refine Json.isPlain_tagged _ (Json.isPlain_only _ (Json.isPlain_arr fun k hk => ?_))
      exact Keyframe.isPlain_toJson (h k.value (List.mem_map_of_mem hk))
  | block text => exact Json.isPlain_tagged _ rfl

theorem Attribute.isPlain_toJson {a : Attribute}
    (h : ∀ s ∈ a.value.scalars, s.isFloating = false) : a.toJson.isPlain := by
  simp [toJson, Json.isPlain, Json.arePlainFields, Value.isPlain_toJson h]

theorem Binding.isPlain_toJson (b : Binding) : b.toJson.isPlain := by
  cases b <;> simp [toJson, Json.isPlain, Json.arePlainFields, Json.Number.fits_uint64]

theorem Node.isPlain_toJson {n : Node} (h : ∀ s ∈ n.scalars, s.isFloating = false) :
    n.toJson.isPlain := by
  have binding : (Json.ofOption (n.binding.map Binding.toJson)).isPlain := by
    cases n.binding with
    | none => rfl
    | some b => exact b.isPlain_toJson
  have attributes : (Json.arr (n.attributes.map Attribute.toJson)).isPlain :=
    Json.isPlain_arr fun a ha => Attribute.isPlain_toJson fun s hs =>
      h s (List.mem_flatMap.2 ⟨a, ha, hs⟩)
  simp only [toJson, Json.isPlain, Json.arePlainFields, binding, Bool.true_and, Bool.and_true]
  exact attributes

/-- Nodes without floating-point numbers are read back from both texts that they are written as. -/
theorem Node.readJson?_listToJson (nodes : List Node)
    (h : ∀ n ∈ nodes, ∀ s ∈ n.scalars, s.isFloating = false) :
    readJson? (listToJson nodes).compact = some nodes ∧
      readJson? (listToJson nodes).pretty = some nodes := by
  have plain : (listToJson nodes).isPlain := Json.isPlain_arr fun n hn => isPlain_toJson (h n hn)
  have all := mapM_map_eq_self ofJson?_toJson nodes
  exact ⟨by rw [readJson?, Json.read?_compact plain]; exact all,
    by rw [readJson?, Json.read?_pretty plain]; exact all⟩

/-- Texts that look like other values and hold what has to be escaped, whole numbers at both ends,
a channel without a value, and both commands. -/
theorem Node.readJson?_listToJson_mixed :
    let nodes : List Node :=
      [⟨"Grade", [⟨"value", .scalar (.text "null")⟩, ⟨"", .scalar (.bool true)⟩,
          ⟨"mix", .multi ⟨[⟨"r", some (.int (-9223372036854775808))⟩, ⟨"g", none⟩,
            ⟨"r", some (.text "true")⟩]⟩⟩,
          ⟨"curve", .animated ⟨[⟨-3, .int 9223372036854775807⟩, ⟨-3, .text "\x07\"\\\n é"⟩]⟩⟩,
          ⟨"empty", .multi ⟨[]⟩⟩, ⟨"block", .block "[\x7b"⟩],
        some (.assign "command" 18446744073709551615)⟩,
       ⟨"kind", [], some (.recall "N1")⟩, ⟨"", [], none⟩]
    (∀ n ∈ nodes, ∀ s ∈ n.scalars, s.isFloating = false) ∧
      readJson? (listToJson nodes).compact = some nodes ∧
      readJson? (listToJson nodes).pretty = some nodes := by
  intro nodes
  have all : nodes.all (fun n => n.scalars.all fun s => !s.isFloating) = true := by decide
  have whole : ∀ n ∈ nodes, ∀ s ∈ n.scalars, s.isFloating = false := fun n hn s hs => by
    simpa using List.all_eq_true.1 (List.all_eq_true.1 all n hn) s hs
  exact ⟨whole, readJson?_listToJson nodes whole⟩

end NodeScript

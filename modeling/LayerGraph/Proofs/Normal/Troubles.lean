import LayerGraph.Proofs.Normal.Idempotent
set_option autoImplicit false

/-!
Entries of the wrong form are dropped, values of the wrong type replaced, and fields of the input
spec and of training rejected. Some documents are none of this: a list of nodes or edges that is a
number or a flag, a size that is not finite, and an integer that is too long where a text is wanted
stop the import.
-/

namespace LayerGraph

/-- What was attempted gives a result exactly if no trouble is there; a fault is one of the
troubles. -/
inductive Attempt {α : Type} (trouble : Fault → Prop) (attempt : Except Fault α) : Prop where
  | made (none : ∀ fault, ¬trouble fault) (result : α) (heq : attempt = .ok result)
  | stopped (fault : Fault) (trouble : trouble fault) (heq : attempt = .error fault)

namespace Attempt

variable {α β : Type} {trouble other : Fault → Prop} {attempt : Except Fault α}

theorem done (result : α) : Attempt (fun _ => False) (.ok result : Except Fault α) :=
  .made (fun _ => not_false) result rfl

theorem congr (h : Attempt trouble attempt) (heq : ∀ fault, trouble fault ↔ other fault) :
    Attempt other attempt := by
  have hsame : trouble = other := funext fun fault => propext (heq fault)
  rwa [← hsame]

theorem bind {next : α → Except Fault β} {others : α → Fault → Prop} (h : Attempt trouble attempt)
    (hnext : ∀ result, attempt = .ok result → Attempt (others result) (next result)) :
    Attempt (fun fault => trouble fault ∨ ∃ result, attempt = .ok result ∧ others result fault)
      (attempt >>= next) := by
  cases h with
  | stopped fault htrouble heq => exact .stopped fault (.inl htrouble) (by rw [heq]; rfl)
  | made hnone result heq =>
    cases hnext result heq with
    | stopped fault htrouble hfault =>
      exact .stopped fault (.inr ⟨result, heq, htrouble⟩) (by rw [heq]; exact hfault)
    | made hrest last hlast =>
      refine .made (fun fault hcase => ?_) last (by rw [heq]; exact hlast)
      rcases hcase with hfirst | ⟨other, hother, htrouble⟩
      · exact hnone fault hfirst
      · obtain rfl := Except.ok.inj (heq.symm.trans hother)
        exact hrest fault htrouble

theorem seq {next : α → Except Fault β} (h : Attempt trouble attempt)
    (hnext : ∀ result, attempt = .ok result → Attempt other (next result)) :
    Attempt (fun fault => trouble fault ∨ other fault) (attempt >>= next) := by
  cases h with
  | stopped fault htrouble heq => exact .stopped fault (.inl htrouble) (by rw [heq]; rfl)
  | made hnone result heq =>
    cases hnext result heq with
    | stopped fault htrouble hfault =>
      exact .stopped fault (.inr htrouble) (by rw [heq]; exact hfault)
    | made hrest last hlast =>
      exact .made (fun fault hcase => hcase.elim (hnone fault) (hrest fault)) last
        (by rw [heq]; exact hlast)

theorem map (h : Attempt trouble attempt) (f : α → β) : Attempt trouble (attempt.map f) := by
  cases h with
  | stopped fault htrouble heq => exact .stopped fault htrouble (by rw [heq]; rfl)
  | made hnone result heq => exact .made hnone (f result) (by rw [heq]; rfl)

theorem returns (h : Attempt trouble attempt) (f : α → β) :
    Attempt trouble (attempt >>= fun a => pure (f a)) := h.map f

theorem mapM {f : α → Except Fault β} {troubles : α → Fault → Prop}
    (h : ∀ a, Attempt (troubles a) (f a)) (as : List α) :
    Attempt (fun fault => ∃ a ∈ as, troubles a fault) (as.mapM f) := by
  induction as with
  | nil => exact (done []).congr (by simp)
  | cons a as ih =>
    rw [List.mapM_cons]
    refine ((h a).seq fun b _ => ih.returns (b :: ·)).congr fun fault => ?_
    rw [List.exists_mem_cons_iff]

end Attempt

/-- An integer that is too long to be written stands in a value that is wanted as a text. -/
def Value.Long (v : Value) (fault : Fault) : Prop := v.writable = false ∧ fault = .integerTooLong

/-- The number that stands for a size is not finite; of a list the first item counts. -/
inductive Value.NotFinite : Value → Fault → Prop where
  | nan : NotFinite (.float .nan) .notANumber
  | infinite (negative : Bool) : NotFinite (.float (.infinite negative)) .infinity
  | first {v : Value} {items : List Value} {fault : Fault} (h : NotFinite v fault) :
      NotFinite (.list (v :: items)) fault

theorem Value.display_attempt (v : Value) : Attempt v.Long v.display := by
  cases hv : v.writable with
  | true =>
    have hnone : ∀ fault, ¬v.Long fault := fun fault h => by simp [Long, hv] at h
    cases v with
    | str s => exact .made hnone s rfl
    | null | bool _ | int _ | float _ | list _ | object _ =>
      exact .made hnone _ (by rw [display, write, if_pos hv]; simp)
  | false =>
    cases v with
    | str s => cases hv
    | null | bool _ | int _ | float _ | list _ | object _ =>
      exact .stopped .integerTooLong ⟨hv, rfl⟩
        (by rw [display, write, if_neg (by simp [hv])]; simp)

namespace Normal

theorem size_attempt (default : Int) (v : Value) : Attempt v.NotFinite (size default v) := by
  fun_induction size default v with
  | case1 n => exact .made (fun fault h => by cases h) n rfl
  | case2 x =>
    cases x with
    | nan => exact .stopped .notANumber .nan rfl
    | infinite negative => exact .stopped .infinity (.infinite negative) rfl
    | finite negative rank => exact .made (fun fault h => by cases h) _ rfl
  | case3 v items ih =>
    exact ih.congr fun fault => ⟨.first, fun h => by cases h with | first h => exact h⟩
  | case4 s n hn => exact .made (fun fault h => by cases h) n rfl
  | case5 s fault hs => exact .made (fun fault h => by cases h) default rfl
  | case6 v hint hfloat hlist hstr =>
    refine .made (fun fault h => ?_) default rfl
    cases h with
    | nan => exact hfloat _ rfl
    | infinite negative => exact hfloat _ rfl
    | first h => exact hlist _ _ rfl

def SizesTrouble (p : Param) (v : Value) (fault : Fault) : Prop :=
  p.type = .numbers ∧ ∃ items, v = .list items ∧ ∃ item ∈ items, item.NotFinite fault

theorem sizes_attempt (items : List Value) :
    Attempt (fun fault => ∃ item ∈ items, item.NotFinite fault) (sizes items) :=
  (Attempt.mapM (size_attempt (-1)) items).map _

theorem exists_value {p : Param} (htype : p.type ≠ .numbers) (v : Value) :
    ∃ v', value p v = .ok v' := by
  unfold value
  split
  · exact ⟨_, rfl⟩
  · exact ⟨_, rfl⟩
  · exact ⟨_, rfl⟩
  · exact ⟨_, rfl⟩
  · rename_i hnumbers
    exact absurd hnumbers htype
  · extract_lets
    split <;> exact ⟨_, rfl⟩
  · exact ⟨_, rfl⟩

theorem value_attempt (p : Param) (v : Value) : Attempt (SizesTrouble p v) (value p v) := by
  by_cases htype : p.type = .numbers
  · have hnone : v.form ≠ .list → ∀ fault, ¬SizesTrouble p v fault := by
      intro hform fault htrouble
      obtain ⟨-, items, rfl, -⟩ := htrouble
      exact hform rfl
    cases v with
    | list items =>
      have hvalue : value p (.list items) = sizes items := by simp [value, htype, sizeItems?]
      rw [hvalue]
      exact (sizes_attempt items).congr fun fault => by simp [SizesTrouble, htype]
    | str s =>
      have hsizes := sizes_attempt
        (((Text.splitOn ',' s).filter fun part => !(Text.trim part).isEmpty).map .str)
      have hvalue : value p (.str s) =
          sizes (((Text.splitOn ',' s).filter fun part => !(Text.trim part).isEmpty).map .str) := by
        simp [value, htype, sizeItems?]
      rw [hvalue]
      refine hsizes.congr fun fault => ⟨fun h => ?_, fun h => absurd h (hnone (by simp [Value.form]) fault)⟩
      obtain ⟨item, hitem, htrouble⟩ := h
      obtain ⟨part, -, rfl⟩ := List.mem_map.1 hitem
      cases htrouble
    | null | bool _ | int _ | float _ | object _ =>
      exact .made (hnone (by simp [Value.form])) p.default (by simp [value, htype, sizeItems?])
  · obtain ⟨v', hv'⟩ := exists_value htype v
    exact .made (fun fault htrouble => htype htrouble.1) v' hv'

theorem ofSchema_attempt (schema : Schema) (params : Fields) :
    Attempt (fun fault => ∃ entry ∈ schema, ∃ v, params.get? entry.1 = some v ∧
      SizesTrouble entry.2 v fault) (ofSchema schema params) := by
  unfold ofSchema
  refine Attempt.mapM ?_ schema
  rintro ⟨key, p⟩
  cases hget : params.get? key with
  | none =>
    simp only [hget]
    exact (Attempt.done _).congr (by simp)
  | some v =>
    simp only [hget]
    exact ((value_attempt p v).map _).congr (by simp)

/-- The only list of sizes in the standard catalogue is the shape of a graph input. -/
theorem standard_numbers : ∀ layer ∈ Catalogue.standard, ∀ entry ∈ layer.schema,
    entry.2.type = .numbers ↔ layer.kind = "Input" ∧ entry.1 = "shape" := by
  decide +kernel

theorem standard_input_shape : ∀ layer ∈ Catalogue.standard, layer.kind = "Input" →
    ∃ entry ∈ layer.schema, entry.1 = "shape" := by
  decide +kernel

def activationGiven (params : Fields) : Value :=
  (params.get "activation").orElse (params.get "function") |>.orElse (.str "relu")

def paddingGiven (params : Fields) : Value := (params.get? "padding").getD (.str "")

/-- What stops the coercion of the parameters of a kind. -/
inductive ParamsTrouble (word : String) (params : Fields) : Fault → Prop where
  | padding (conv : word = "Conv2d") {fault : Fault} (long : (paddingGiven params).Long fault) :
      ParamsTrouble word params fault
  | kernel (conv : word = "Conv2d") {padding : String} (given : paddingGiven params = .str padding)
      (same : Text.lower (Text.trim padding) = "same") {fault : Fault}
      (size : (params.get "kernel_size").NotFinite fault) : ParamsTrouble word params fault
  | shape (input : word = "Input") {items : List Value}
      (given : params.get? "shape" = some (.list items)) {item : Value} (mem : item ∈ items)
      {fault : Fault} (size : item.NotFinite fault) : ParamsTrouble word params fault

/-- What stops the normalization of a node, by its kind as it is given. -/
inductive Trouble (raw : String) (params : Fields) : Fault → Prop where
  | activation (block : Text.lower (Text.trim raw) = "activation") {fault : Fault}
      (long : (activationGiven params).Long fault) : Trouble raw params fault
  | params {word : String} (known : kind Catalogue.standard raw params = .ok word) {fault : Fault}
      (trouble : ParamsTrouble word params fault) : Trouble raw params fault

theorem standard_not_activation : ∀ layer ∈ Catalogue.standard,
    Text.lower layer.kind ≠ "activation" := by
  decide +kernel

theorem kind_attempt (raw : String) (params : Fields) :
    Attempt (fun fault => Text.lower (Text.trim raw) = "activation" ∧
      (activationGiven params).Long fault) (kind Catalogue.standard raw params) := by
  by_cases hblock : Text.lower (Text.trim raw) = "activation"
  · have hword : Catalogue.standard.find? (Text.trim raw) = none := by
      refine List.find?_eq_none.2 fun layer hmem hkind => standard_not_activation layer hmem ?_
      rw [eq_of_beq hkind, hblock]
    have hlowered : (Catalogue.standard.reverse.find? fun (layer : Layer) =>
        Text.lower layer.kind == "activation") = none :=
      List.find?_eq_none.2 fun layer hmem hkind =>
        standard_not_activation layer (List.mem_reverse.1 hmem) (eq_of_beq hkind)
    have hkind : kind Catalogue.standard raw params = activation params := by
      simp only [kind, hword, hblock, hlowered, Option.isSome_none, if_true, Bool.false_eq_true,
        if_false]
    rw [hkind]
    exact ((activationGiven params).display_attempt.returns _).congr fun fault => by simp [hblock]
  · have hmade : ∃ word, kind Catalogue.standard raw params = .ok word := by
      unfold kind
      extract_lets word lowered
      split
      · exact ⟨_, rfl⟩
      · split
        · exact ⟨_, rfl⟩
        · exact ⟨_, rfl⟩
    obtain ⟨word, hword⟩ := hmade
    exact .made (fun fault h => hblock h.1) word hword

theorem samePadding_attempt (params : Fields) :
    Attempt (fun fault => (paddingGiven params).Long fault ∨
      ∃ word, paddingGiven params = .str word ∧ Text.lower (Text.trim word) = "same" ∧
        (params.get "kernel_size").NotFinite fault) (samePadding params) := by
  have hnext : ∀ word, Attempt (fun fault => Text.lower (Text.trim word) = "same" ∧
      (params.get "kernel_size").NotFinite fault)
      (if Text.lower (Text.trim word) = "same" then do
        let kernel ← size 3 (params.get "kernel_size")
        return params.put "padding" (.int (if 0 < kernel then kernel / 2 else 0))
      else return params) := by
    intro word
    by_cases hsame : Text.lower (Text.trim word) = "same"
    · rw [if_pos hsame]
      exact ((size_attempt 3 _).returns _).congr fun fault => by simp [hsame]
    · rw [if_neg hsame]
      exact (Attempt.done _).congr fun fault => by simp [hsame]
  refine ((paddingGiven params).display_attempt.bind fun word _ => hnext word).congr fun fault => ?_
  refine or_congr_right (exists_congr fun word => and_congr_left fun hsame => ?_)
  -- Only a text reads like the word.
  cases hgiven : paddingGiven params with
  | str s => simp [Value.display]
  | null | bool _ | int _ | float _ | list _ | object _ =>
    refine ⟨fun hdisplay => absurd hsame.1 (display_ne_same ?_ hdisplay), fun h => ?_⟩
    · exact Form.noConfusion
    · cases h

theorem shape_of_sizesTrouble {layer : Layer} (hmem : layer ∈ Catalogue.standard)
    {params : Fields} {fault : Fault} :
    (∃ entry ∈ layer.schema, ∃ v, params.get? entry.1 = some v ∧ SizesTrouble entry.2 v fault) ↔
      layer.kind = "Input" ∧ ∃ items, params.get? "shape" = some (.list items) ∧
        ∃ item ∈ items, item.NotFinite fault := by
  constructor
  · intro h
    obtain ⟨entry, hentry, v, hget, htype, items, rfl, hitem⟩ := h
    obtain ⟨hinput, hkey⟩ := (standard_numbers layer hmem entry hentry).1 htype
    exact ⟨hinput, items, hkey ▸ hget, hitem⟩
  · intro h
    obtain ⟨hinput, items, hget, hitem⟩ := h
    obtain ⟨entry, hentry, hkey⟩ := standard_input_shape layer hmem hinput
    exact ⟨entry, hentry, .list items, hkey ▸ hget,
      (standard_numbers layer hmem entry hentry).2 ⟨hinput, hkey⟩, items, rfl, hitem⟩

theorem params_attempt (word : String) (params : Fields) :
    Attempt (ParamsTrouble word params) (Normal.params Catalogue.standard word params) := by
  unfold Normal.params
  cases hfind : Catalogue.standard.find? word with
  | none =>
    refine .made (fun fault h => ?_) params rfl
    cases h with
    | padding conv _ | kernel conv _ _ _ => subst conv; cases hfind
    | shape input _ _ _ => subst input; cases hfind
  | some layer =>
    obtain ⟨hmem, hkind⟩ := Catalogue.find?_spec hfind
    by_cases hconv : word = "Conv2d"
    · have hnext : ∀ next : Fields, Attempt (fun _ => False) (ofSchema layer.schema next) :=
        fun next => (ofSchema_attempt layer.schema next).congr fun fault => by
          rw [shape_of_sizesTrouble hmem, hkind, hconv]
          simp
      simp only [if_pos hconv]
      refine ((samePadding_attempt params).seq fun next _ => hnext next).congr fun fault => ?_
      constructor
      · rintro ((hlong | ⟨padding, hgiven, hsame, hsize⟩) | hnone)
        · exact .padding hconv hlong
        · exact .kernel hconv hgiven hsame hsize
        · exact hnone.elim
      · intro h
        cases h with
        | padding _ long => exact .inl (.inl long)
        | kernel _ given same size => exact .inl (.inr ⟨_, given, same, size⟩)
        | shape input _ _ _ => exact absurd (input.symm.trans hconv) (by decide)
    · simp only [if_neg hconv]
      refine (ofSchema_attempt layer.schema params).congr fun fault => ?_
      rw [shape_of_sizesTrouble hmem, hkind]
      constructor
      · rintro ⟨hinput, items, hget, item, hitem, hsize⟩
        exact .shape hinput hget hitem hsize
      · intro h
        cases h with
        | padding conv _ | kernel conv _ _ _ => exact absurd conv hconv
        | shape input given mem size => exact ⟨input, _, given, _, mem, size⟩

end Normal

theorem Node.normalize_attempt (node : Node) :
    Attempt (Normal.Trouble node.kind node.params) (node.normalize Catalogue.standard) := by
  have hparams : ∀ word, Normal.kind Catalogue.standard node.kind node.params = .ok word →
      Attempt (Normal.ParamsTrouble word node.params) (do
        let params ← Normal.params Catalogue.standard word node.params
        return (⟨node.id, word, if node.label.isEmpty then word else node.label, params⟩ : Node)) :=
    fun word _ => (Normal.params_attempt word node.params).returns _
  refine ((Normal.kind_attempt node.kind node.params).bind hparams).congr fun fault => ?_
  constructor
  · rintro (⟨hblock, hlong⟩ | ⟨word, hword, htrouble⟩)
    · exact .activation hblock hlong
    · exact .params hword htrouble
  · intro h
    cases h with
    | activation block long => exact .inl ⟨block, long⟩
    | params known trouble => exact .inr ⟨_, known, trouble⟩

namespace Import

def Unlisted (v : Value) (fault : Fault) : Prop :=
  v.truthy = true ∧ (v.form = .boolean ∨ v.form = .integer ∨ v.form = .float) ∧
    fault = .notIterable v.form

theorem entries_attempt (v : Value) : Attempt (Unlisted v) (entries v) := by
  cases v with
  | null | str _ | list _ | object _ =>
    exact .made (fun fault h => by simp [Unlisted, Value.form] at h) _ rfl
  | bool _ | int _ | float _ =>
    simp only [entries]
    split
    · rename_i hset
      exact .stopped _ ⟨hset, by simp [Value.form], rfl⟩ rfl
    · rename_i hunset
      exact .made (fun fault h => hunset h.1) _ rfl

def kindGiven (fields : Fields) : Value :=
  (fields.get "kind").orElse (fields.get "type") |>.orElse (.str "")

def labelGiven (fields : Fields) : Value := (fields.get "label").orElse (.str "")

inductive NodeTrouble (fields : Fields) : Fault → Prop where
  | long {id : Value} (given : fields.get? "id" = some id) {v : Value}
      (shown : v ∈ [id, kindGiven fields, labelGiven fields]) {fault : Fault} (long : v.Long fault) :
      NodeTrouble fields fault
  | normal (given : (fields.get? "id").isSome) {kind : String}
      (shown : (kindGiven fields).display = .ok kind) {fault : Fault}
      (trouble : Normal.Trouble kind (paramsOf fields) fault) : NodeTrouble fields fault

theorem node?_attempt (fields : Fields) :
    Attempt (NodeTrouble fields) (node? Catalogue.standard fields) := by
  cases hid : fields.get? "id" with
  | none =>
    refine .made (fun fault h => ?_) none (by rw [node?, hid])
    cases h with
    | long given _ _ => rw [hid] at given; cases given
    | normal given _ _ => rw [hid] at given; cases given
  | some id =>
    have hread : Attempt (fun fault => id.Long fault ∨ (kindGiven fields).Long fault ∨
        ∃ kind, (kindGiven fields).display = .ok kind ∧
          ((labelGiven fields).Long fault ∨ Normal.Trouble kind (paramsOf fields) fault))
        (node? Catalogue.standard fields) := by
      rw [node?, hid]
      exact id.display_attempt.seq fun id _ => (kindGiven fields).display_attempt.bind
        fun kind _ => (labelGiven fields).display_attempt.seq fun label _ =>
          (Node.normalize_attempt ⟨id, kind, label, paramsOf fields⟩).returns some
    refine hread.congr fun fault => ⟨?_, fun h => ?_⟩
    · rintro (hlong | hlong | ⟨kind, hkind, hlong | htrouble⟩)
      · exact .long hid (by simp) hlong
      · exact .long hid (by simp) hlong
      · exact .long hid (by simp) hlong
      · exact .normal (by simp [hid]) hkind htrouble
    · cases h with
      | @long _ given v shown fault long =>
        obtain rfl := Option.some.inj (hid.symm.trans given)
        simp only [List.mem_cons, List.not_mem_nil, or_false] at shown
        rcases shown with rfl | rfl | rfl
        · exact .inl long
        · exact .inr (.inl long)
        · cases (kindGiven fields).display_attempt with
          | stopped other hother _ => exact .inr (.inl (long.2 ▸ hother.2 ▸ hother))
          | made _ kind hkind => exact .inr (.inr ⟨kind, hkind, .inl long⟩)
      | normal _ shown trouble => exact .inr (.inr ⟨_, shown, .inr trouble⟩)

theorem nodes_attempt (entries : List Fields) :
    Attempt (fun fault => ∃ entry ∈ entries, NodeTrouble entry fault)
      (Import.nodes Catalogue.standard entries) := by
  induction entries with
  | nil => exact (Attempt.done []).congr (by simp)
  | cons entry entries ih =>
    rw [Import.nodes]
    refine ((node?_attempt entry).seq fun node _ => ih.returns (node.toList ++ ·)).congr fun fault => ?_
    rw [List.exists_mem_cons_iff]

def sourceGiven (fields : Fields) : Value := (fields.get? "source").getD (fields.get "from")

def targetGiven (fields : Fields) : Value := (fields.get? "target").getD (fields.get "to")

def edgeIdGiven (fields : Fields) (source target : String) : Value :=
  (fields.get "id").orElse (.str ("e-" ++ source ++ "-" ++ target))

def slotGiven (fields : Fields) : Value := (fields.get "port").orElse (fields.get "targetHandle")

structure Joins (ids : List String) (fields : Fields) (source target : String) : Prop where
  set : sourceGiven fields ≠ .null ∧ targetGiven fields ≠ .null
  start : (sourceGiven fields).display = .ok source
  stop : (targetGiven fields).display = .ok target
  known : source ∈ ids ∧ target ∈ ids

inductive EdgeTrouble (ids : List String) (fields : Fields) : Fault → Prop where
  | ends (set : sourceGiven fields ≠ .null ∧ targetGiven fields ≠ .null) {v : Value}
      (shown : v ∈ [sourceGiven fields, targetGiven fields]) {fault : Fault}
      (long : v.Long fault) : EdgeTrouble ids fields fault
  | id {source target : String} (joins : Joins ids fields source target) {fault : Fault}
      (long : (edgeIdGiven fields source target).Long fault) : EdgeTrouble ids fields fault

def Refused (ids : List String) (fields : Fields) : Prop :=
  ∃ source target, Joins ids fields source target ∧ slotGiven fields ≠ .null ∧
    (slotGiven fields).form ≠ .text

inductive Reading {α : Type} (trouble : Fault → Prop) (refused : Prop)
    (attempt : Except ImportError α) : Prop where
  | read (calm : ∀ fault, ¬trouble fault) (accepted : ¬refused) (result : α)
      (heq : attempt = .ok result)
  | stopped (fault : Fault) (trouble : trouble fault) (heq : attempt = .error (.fault fault))
  | rejected (calm : ∀ fault, ¬trouble fault) (refused : refused) (rejection : Document.Rejection)
      (heq : attempt = .error (.rejected rejection))

theorem slotOf_eq_error_iff (fields : Fields) :
    (∃ rejection, slotOf fields = .error rejection) ↔
      slotGiven fields ≠ .null ∧ (slotGiven fields).form ≠ .text := by
  rw [slotOf, ← slotGiven]
  cases slotGiven fields <;>
    simp [Document.Decoder.optional, Document.Decoder.text, Document.Checked.map,
      Document.Checked.refuse, Document.Checked.under, Document.Checked.orReject, Value.form]

theorem edge?_of_unset (ids : List String) {fields : Fields}
    (h : ¬(sourceGiven fields ≠ .null ∧ targetGiven fields ≠ .null)) :
    edge? ids fields = .ok none := by
  unfold edge?
  split
  · rfl
  · rfl
  · rename_i hsource htarget
    exact absurd ⟨hsource, htarget⟩ h

theorem edge?_of_set (ids : List String) {fields : Fields}
    (h : sourceGiven fields ≠ .null ∧ targetGiven fields ≠ .null) :
    edge? ids fields = (do
      let source ← (sourceGiven fields).display.mapError .fault
      let target ← (targetGiven fields).display.mapError .fault
      if ids.contains source && ids.contains target then
        let id ← (edgeIdGiven fields source target).display.mapError .fault
        let slot ← (slotOf fields).mapError .rejected
        return some ⟨id, source, target, slot⟩
      else return none) := by
  unfold edge?
  split
  · rename_i hsource
    exact absurd hsource h.1
  · rename_i htarget _
    exact absurd htarget h.2
  · rfl

theorem Joins.unique {ids : List String} {fields : Fields} {source target source' target' : String}
    (h : Joins ids fields source target) (h' : Joins ids fields source' target') :
    source' = source ∧ target' = target :=
  ⟨Except.ok.inj (h'.start.symm.trans h.start), Except.ok.inj (h'.stop.symm.trans h.stop)⟩

theorem joined_reading {ids : List String} {fields : Fields} {source target : String}
    (hjoins : Joins ids fields source target)
    (hends : ∀ v ∈ [sourceGiven fields, targetGiven fields], ∀ fault, ¬v.Long fault) :
    Reading (EdgeTrouble ids fields) (Refused ids fields) (do
      let id ← (edgeIdGiven fields source target).display.mapError .fault
      let slot ← (slotOf fields).mapError .rejected
      return some (⟨id, source, target, slot⟩ : Edge)) := by
  cases (edgeIdGiven fields source target).display_attempt with
  | stopped fault hlong hid => exact .stopped fault (.id hjoins hlong) (by rw [hid]; rfl)
  | made hshort id hid =>
    have hcalm : ∀ fault, ¬EdgeTrouble ids fields fault := by
      intro fault h
      cases h with
      | ends _ shown long => exact hends _ shown _ long
      | id joins long =>
        obtain ⟨rfl, rfl⟩ := hjoins.unique joins
        exact hshort _ long
    rw [hid]
    cases hslot : slotOf fields with
    | error rejection =>
      have hrefused := (slotOf_eq_error_iff fields).1 ⟨rejection, hslot⟩
      exact .rejected hcalm ⟨source, target, hjoins, hrefused⟩ rejection rfl
    | ok slot =>
      refine .read hcalm ?_ _ rfl
      rintro ⟨_, _, -, hrefused⟩
      obtain ⟨rejection, hrejection⟩ := (slotOf_eq_error_iff fields).2 hrefused
      rw [hslot] at hrejection
      cases hrejection

theorem edge?_reading (ids : List String) (fields : Fields) :
    Reading (EdgeTrouble ids fields) (Refused ids fields) (edge? ids fields) := by
  by_cases hset : sourceGiven fields ≠ .null ∧ targetGiven fields ≠ .null
  · rw [edge?_of_set ids hset]
    cases (sourceGiven fields).display_attempt with
    | stopped fault hlong hsource =>
      exact .stopped fault (.ends hset (by simp) hlong) (by rw [hsource]; rfl)
    | made hstart source hsource =>
      cases (targetGiven fields).display_attempt with
      | stopped fault hlong htarget =>
        exact .stopped fault (.ends hset (by simp) hlong) (by rw [hsource, htarget]; rfl)
      | made hstop target htarget =>
        have hends : ∀ v ∈ [sourceGiven fields, targetGiven fields], ∀ fault, ¬v.Long fault := by
          simpa using And.intro hstart hstop
        simp only [hsource, htarget, Except.mapError, bind, Except.bind]
        by_cases hknown : (ids.contains source && ids.contains target) = true
        · rw [if_pos hknown]
          exact joined_reading ⟨hset, hsource, htarget, by simpa using hknown⟩ hends
        · rw [if_neg hknown]
          have hnone : ∀ source' target', ¬Joins ids fields source' target' := by
            intro source' target' hjoins
            obtain rfl := Except.ok.inj (hsource.symm.trans hjoins.start)
            obtain rfl := Except.ok.inj (htarget.symm.trans hjoins.stop)
            exact hknown (by simpa using hjoins.known)
          refine .read (fun fault h => ?_) ?_ none rfl
          · cases h with
            | ends _ shown long => exact hends _ shown _ long
            | id joins _ => exact hnone _ _ joins
          · rintro ⟨source', target', hjoins, -⟩
            exact hnone _ _ hjoins
  · refine .read (fun fault h => ?_) ?_ none (edge?_of_unset ids hset)
    · cases h with
      | ends set _ _ => exact hset set
      | id joins _ => exact hset joins.set
    · rintro ⟨_, _, hjoins, -⟩
      exact hset hjoins.set

/-- An entry for an edge that is read, as none before it is refused, and stops the import. -/
def EdgesTrouble (ids : List String) (entries : List Fields) (fault : Fault) : Prop :=
  ∃ before entry after, entries = before ++ entry :: after ∧
    (∀ earlier ∈ before, ¬Refused ids earlier) ∧ EdgeTrouble ids entry fault

theorem edgesTrouble_cons {ids : List String} {entry : Fields} {entries : List Fields}
    {fault : Fault} : EdgesTrouble ids (entry :: entries) fault ↔
      EdgeTrouble ids entry fault ∨ ¬Refused ids entry ∧ EdgesTrouble ids entries fault := by
  constructor
  · rintro ⟨before, other, after, hsplit, hbefore, htrouble⟩
    cases before with
    | nil =>
      obtain ⟨rfl, -⟩ := List.cons.inj hsplit
      exact .inl htrouble
    | cons first before =>
      obtain ⟨rfl, hrest⟩ := List.cons.inj hsplit
      obtain ⟨hfirst, hbefore⟩ := List.forall_mem_cons.1 hbefore
      exact .inr ⟨hfirst, before, other, after, hrest, hbefore, htrouble⟩
  · rintro (htrouble | ⟨hfirst, before, other, after, rfl, hbefore, htrouble⟩)
    · exact ⟨[], entry, entries, rfl, by simp, htrouble⟩
    · exact ⟨entry :: before, other, after, rfl, List.forall_mem_cons.2 ⟨hfirst, hbefore⟩, htrouble⟩

theorem edges_reading (ids : List String) (entries : List Fields) :
    Reading (EdgesTrouble ids entries) (∃ entry ∈ entries, Refused ids entry)
      (Import.edges ids entries) := by
  induction entries with
  | nil => exact .read (fun fault h => by simp [EdgesTrouble] at h) (by simp) [] rfl
  | cons entry entries ih =>
    simp only [Import.edges, List.exists_mem_cons_iff]
    cases edge?_reading ids entry with
    | stopped fault htrouble heq =>
      exact .stopped fault (edgesTrouble_cons.2 (.inl htrouble)) (by rw [heq]; rfl)
    | rejected hcalm hrefused rejection heq =>
      refine .rejected (fun fault h => ?_) (.inl hrefused) rejection (by rw [heq]; rfl)
      exact (edgesTrouble_cons.1 h).elim (hcalm fault) fun hrest => hrest.1 hrefused
    | read hcalm haccepted edge heq =>
      rw [heq]
      have hnone : ∀ {fault}, (∀ fault, ¬EdgesTrouble ids entries fault) →
          ¬EdgesTrouble ids (entry :: entries) fault := fun hrest h =>
        (edgesTrouble_cons.1 h).elim (hcalm _) fun hlater => hrest _ hlater.2
      cases ih with
      | stopped fault htrouble hrest =>
        exact .stopped fault (edgesTrouble_cons.2 (.inr ⟨haccepted, htrouble⟩))
          (by rw [hrest]; rfl)
      | rejected hrest hrefused rejection hlater =>
        exact .rejected (fun _ => hnone hrest) (.inr hrefused) rejection (by rw [hlater]; rfl)
      | read hrest hlater edges hedges =>
        exact .read (fun _ => hnone hrest) (fun h => h.elim haccepted hlater) _
          (by rw [hedges]; rfl)

/-- What stops the import of a document: nodes or edges that are no list, an entry for a node, and,
as none before it is refused, an entry for an edge. -/
inductive Trouble (fields : Fields) : Fault → Prop where
  | nodes {fault : Fault} (unlisted : Unlisted (fields.get "nodes") fault) : Trouble fields fault
  | node {entries : List Fields} (listed : Import.entries (fields.get "nodes") = .ok entries)
      {entry : Fields} (mem : entry ∈ entries) {fault : Fault} (trouble : NodeTrouble entry fault) :
      Trouble fields fault
  | edges {fault : Fault} (unlisted : Unlisted (fields.get "edges") fault) : Trouble fields fault
  | edge {entries : List Fields} (listed : Import.entries (fields.get "nodes") = .ok entries)
      {nodes : List Node} (read : Import.nodes Catalogue.standard entries = .ok nodes)
      {edges : List Fields} (joined : Import.entries (fields.get "edges") = .ok edges)
      {fault : Fault} (trouble : EdgesTrouble (nodes.map (·.id)) edges fault) : Trouble fields fault

theorem calm_of_parts {fields : Fields} {nodeEntries edgeEntries : List Fields} {nodes : List Node}
    (hnodeEntries : entries (fields.get "nodes") = .ok nodeEntries)
    (hnodes : Import.nodes Catalogue.standard nodeEntries = .ok nodes)
    (hedgeEntries : entries (fields.get "edges") = .ok edgeEntries)
    (hnodesListed : ∀ fault, ¬Unlisted (fields.get "nodes") fault)
    (hnodesRead : ∀ fault, ¬∃ entry ∈ nodeEntries, NodeTrouble entry fault)
    (hedgesListed : ∀ fault, ¬Unlisted (fields.get "edges") fault)
    (hedgesRead : ∀ fault, ¬EdgesTrouble (nodes.map (·.id)) edgeEntries fault) (fault : Fault) :
    ¬Trouble fields fault := by
  intro h
  cases h with
  | nodes unlisted => exact hnodesListed fault unlisted
  | node listed mem trouble =>
    obtain rfl := Except.ok.inj (hnodeEntries.symm.trans listed)
    exact hnodesRead fault ⟨_, mem, trouble⟩
  | edges unlisted => exact hedgesListed fault unlisted
  | edge listed read joined trouble =>
    obtain rfl := Except.ok.inj (hnodeEntries.symm.trans listed)
    obtain rfl := Except.ok.inj (hnodes.symm.trans read)
    obtain rfl := Except.ok.inj (hedgeEntries.symm.trans joined)
    exact hedgesRead fault trouble

theorem orReject_mapError {α : Type} (checked : Document.Checked α) (model : String) :
    (∃ a, (checked.orReject model).mapError ImportError.rejected = .ok a) ∨
      ∃ rejection, (checked.orReject model).mapError ImportError.rejected =
        .error (.rejected rejection) := by
  cases checked with
  | valid a => exact .inl ⟨a, rfl⟩
  | invalid defects => exact .inr ⟨⟨model, defects⟩, rfl⟩

theorem graph_reading (fields : Fields) :
    Reading (Trouble fields)
      (∃ rejection, graph Catalogue.standard fields = .error (.rejected rejection))
      (graph Catalogue.standard fields) := by
  cases entries_attempt (fields.get "nodes") with
  | stopped fault htrouble heq =>
    exact .stopped fault (.nodes htrouble) (by rw [graph, heq]; rfl)
  | made hnodesListed nodeEntries hnodeEntries =>
  cases nodes_attempt nodeEntries with
  | stopped fault htrouble heq =>
    obtain ⟨entry, hentry, htrouble⟩ := htrouble
    refine .stopped fault (.node hnodeEntries hentry htrouble) ?_
    simp only [graph, hnodeEntries, heq, Except.mapError, bind, Except.bind]
  | made hnodesRead nodes hnodes =>
  cases entries_attempt (fields.get "edges") with
  | stopped fault htrouble heq =>
    refine .stopped fault (.edges htrouble) ?_
    simp only [graph, hnodeEntries, hnodes, heq, Except.mapError, bind, Except.bind]
  | made hedgesListed edgeEntries hedgeEntries =>
  have hgraph : graph Catalogue.standard fields = (do
      let edges ← Import.edges (nodes.map (·.id)) edgeEntries
      let training := (Training.decodeFields (trainingFields fields)).under (.key "training")
      let input := (InputSpec.decodeFields (inputFields fields nodes)).under (.key "input_spec")
      (Graph.mk nodes edges <$> training <*> input).orReject "Graph" |>.mapError .rejected) := by
    simp only [graph, hnodeEntries, hnodes, hedgeEntries, Except.mapError, bind, Except.bind]
  have hcalm := calm_of_parts hnodeEntries hnodes hedgeEntries hnodesListed hnodesRead hedgesListed
  cases edges_reading (nodes.map (·.id)) edgeEntries with
  | stopped fault htrouble heq =>
    exact .stopped fault (.edge hnodeEntries hnodes hedgeEntries htrouble) (by rw [hgraph, heq]; rfl)
  | rejected hedgesRead _ rejection heq =>
    have hrejected : graph Catalogue.standard fields = .error (.rejected rejection) := by
      rw [hgraph, heq]
      rfl
    exact .rejected (hcalm hedgesRead) ⟨rejection, hrejected⟩ rejection hrejected
  | read hedgesRead _ edges hedges =>
    rw [hedges] at hgraph
    rcases orReject_mapError (Graph.mk nodes edges
      <$> (Training.decodeFields (trainingFields fields)).under (.key "training")
      <*> (InputSpec.decodeFields (inputFields fields nodes)).under (.key "input_spec")) "Graph" with
      ⟨final, hfinal⟩ | ⟨rejection, hrejection⟩
    · have hread : graph Catalogue.standard fields = .ok final := hgraph.trans hfinal
      exact .read (hcalm hedgesRead) (by simp [hread]) final hread
    · have hrejected : graph Catalogue.standard fields = .error (.rejected rejection) :=
        hgraph.trans hrejection
      exact .rejected (hcalm hedgesRead) ⟨rejection, hrejected⟩ rejection hrejected

end Import

/-- A node of a known kind has the parameters of that kind, each with a value of the parameter's
type or with the default. -/
def Node.Fits (node : Node) : Prop :=
  ∀ layer, Catalogue.standard.find? node.kind = some layer →
    List.Forall₂ (fun entry field => field.1 = entry.1 ∧
      (entry.2.accepts field.2 = true ∨ field.2 = entry.2.default)) layer.schema node.params

theorem Normal.accepts_of_given {params : Fields} {key : String} {p : Param}
    (hsound : p.sound = true) {v : Value} (h : given params key p = .ok v) :
    p.accepts v = true ∨ v = p.default := by
  rw [given] at h
  split at h
  · exact accepts_of_value hsound h
  · exact .inr (Except.ok.inj h).symm

theorem Node.fits_of_normalize {node node' : Node}
    (h : node.normalize Catalogue.standard = .ok node') : node'.Fits := by
  obtain ⟨-, -, hparams, -⟩ := normalize_eq_ok.1 h
  intro layer hfind
  obtain ⟨next, -, hfields⟩ := (Normal.params_of_find? hfind).1 hparams
  have hsound := Catalogue.standard_sound layer (Catalogue.find?_spec hfind).1
  refine ((List.forall₂_and_left _ _).2 ⟨hsound, Normal.ofSchema_eq_ok.1 hfields⟩).imp ?_
  intro entry field hentry
  exact ⟨hentry.2.1, Normal.accepts_of_given hentry.1 hentry.2.2⟩

namespace Graph

/-- The import gives a graph or a rejection exactly if the document is free of these troubles. The
nodes that are read are those of entries, and fit their kinds; the edges are between them. -/
theorem ofDocument_reading (fields : Fields) :
    ((∃ graph, Graph.ofDocument Catalogue.standard (.object fields) = .ok graph) ∨
      (∃ rejection,
        Graph.ofDocument Catalogue.standard (.object fields) = .error (.rejected rejection)) ↔
      ∀ fault, ¬Import.Trouble fields fault) ∧
    (∀ fault, Graph.ofDocument Catalogue.standard (.object fields) = .error (.fault fault) →
      Import.Trouble fields fault) ∧
    ∀ graph, Graph.ofDocument Catalogue.standard (.object fields) = .ok graph →
      (∀ node ∈ graph.nodes, node.Fits) ∧
      ∀ edge ∈ graph.edges, edge.source ∈ graph.ids ∧ edge.target ∈ graph.ids := by
  have hmade : ∀ graph, Graph.ofDocument Catalogue.standard (.object fields) = .ok graph →
      (∀ node ∈ graph.nodes, node.Fits) ∧
      ∀ edge ∈ graph.edges, edge.source ∈ graph.ids ∧ edge.target ∈ graph.ids := by
    intro graph hgraph
    obtain ⟨nodeEntries, edgeEntries, -, hnodes, hedges⟩ := Import.graph_eq_ok hgraph
    refine ⟨fun node hnode => ?_, fun edge hedge => ?_⟩
    · obtain ⟨entry, -, hread⟩ := Import.exists_of_nodes hnodes hnode
      obtain ⟨read, -, hnormal⟩ := Import.node?_eq_ok hread
      exact Node.fits_of_normalize hnormal
    · obtain ⟨entry, -, hread⟩ := Import.exists_of_edges hedges hedge
      exact Import.edge?_eq_ok hread
  have hdocument : Graph.ofDocument Catalogue.standard (.object fields) =
      Import.graph Catalogue.standard fields := rfl
  cases Import.graph_reading fields with
  | stopped fault htrouble heq =>
    rw [← hdocument] at heq
    refine ⟨⟨fun h => ?_, fun hcalm => absurd htrouble (hcalm fault)⟩, fun other hother => ?_, hmade⟩
    · rcases h with ⟨graph, hgraph⟩ | ⟨rejection, hrejection⟩
      · cases heq.symm.trans hgraph
      · cases heq.symm.trans hrejection
    · cases heq.symm.trans hother
      exact htrouble
  | read hcalm _ graph heq =>
    rw [← hdocument] at heq
    refine ⟨⟨fun _ => hcalm, fun _ => .inl ⟨graph, heq⟩⟩, fun fault hfault => ?_, hmade⟩
    cases heq.symm.trans hfault
  | rejected hcalm _ rejection heq =>
    rw [← hdocument] at heq
    refine ⟨⟨fun _ => hcalm, fun _ => .inr ⟨rejection, heq⟩⟩, fun fault hfault => ?_, hmade⟩
    cases heq.symm.trans hfault

def fiveNodes : Fields := [("nodes", .int 5)]

theorem fiveNodes_not_read :
    Graph.ofDocument Catalogue.standard (.object fiveNodes) =
      .error (.fault (.notIterable .integer)) ∧
    ¬((∃ graph, Graph.ofDocument Catalogue.standard (.object fiveNodes) = .ok graph) ∨
      ∃ rejection,
        Graph.ofDocument Catalogue.standard (.object fiveNodes) = .error (.rejected rejection)) := by
  have hstopped : Graph.ofDocument Catalogue.standard (.object fiveNodes) =
      .error (.fault (.notIterable .integer)) := by
    decide +kernel
  rw [hstopped]
  simp

end Graph

end LayerGraph

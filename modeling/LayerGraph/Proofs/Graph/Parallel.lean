import LayerGraph.Proofs.Graph.Results
import LayerGraph.Proofs.Graph.Turns
set_option autoImplicit false

namespace LayerGraph

/-- A result that another one follows: the shapes are related, the element types are the same, and
the status is no worse. -/
structure NodeResult.Follows (S : Shape → Shape → Prop) (result other : NodeResult) : Prop where
  shape : Option.Rel S result.shape other.shape
  type : other.type = result.type
  status : other.status.rank ≤ result.status.rank

variable {S : Shape → Shape → Prop}

theorem Status.eq_error_of_rank_le {s t : Status} (h : s.rank ≤ t.rank) (hs : s = .error) :
    t = .error := by
  subst hs
  revert h
  cases t <;> decide

theorem NodeResult.Follows.status_ne {result other : NodeResult} (h : result.Follows S other)
    (hgood : result.status ≠ .error) : other.status ≠ .error := fun herror =>
  hgood (Status.eq_error_of_rank_le h.status herror)

def TableFollows (S : Shape → Shape → Prop) (results others : Table NodeResult) : Prop :=
  ∀ id, Option.Rel (NodeResult.Follows S) (results.get? id) (others.get? id)

theorem TableFollows.put {results others : Table NodeResult} (h : TableFollows S results others)
    {result other : NodeResult} (hresult : result.Follows S other) (id : String) :
    TableFollows S (results.put id result) (others.put id other) := by
  intro key
  by_cases hkey : key = id
  · subst hkey
    rw [Table.get?_put_self, Table.get?_put_self]
    exact .some hresult
  · rw [Table.get?_put_of_ne _ hkey, Table.get?_put_of_ne _ hkey]
    exact h key

theorem rel_bind {α β γ δ : Type} {R : α → β → Prop} {P : γ → δ → Prop} {a : Option α} {b : Option β}
    {f : α → Option γ} {g : β → Option δ} (h : Option.Rel R a b)
    (hfg : ∀ x y, R x y → Option.Rel P (f x) (g y)) : Option.Rel P (a.bind f) (b.bind g) := by
  cases h with
  | none => exact .none
  | some hxy => exact hfg _ _ hxy

theorem rel_imp {α β : Type} {R P : α → β → Prop} {a : Option α} {b : Option β}
    (h : Option.Rel R a b) (himp : ∀ x y, R x y → P x y) : Option.Rel P a b := by
  cases h with
  | none => exact .none
  | some hxy => exact .some (himp _ _ hxy)

theorem exists_of_rel_some {α β : Type} {R : α → β → Prop} {x : α} {b : Option β}
    (h : Option.Rel R (some x) b) : ∃ y, b = some y ∧ R x y := by
  cases h with
  | some hxy => exact ⟨_, rfl, hxy⟩

theorem eq_none_of_rel {α β : Type} {R : α → β → Prop} {b : Option β}
    (h : Option.Rel R none b) : b = none := by
  cases h
  rfl

theorem bind_type_eq {result? other? : Option NodeResult}
    (h : Option.Rel (NodeResult.Follows S) result? other?) :
    other?.bind (·.type) = result?.bind (·.type) := by
  cases h with
  | none => rfl
  | some hfollows => exact hfollows.type

namespace Node

def Drops (results : Table NodeResult) (sources sources' : List String) : Prop :=
  ∃ p : String → Bool, sources' = sources.filter p ∧
    ∀ source ∈ sources, p source = false → results.get? source = none

theorem drops_refl (results : Table NodeResult) (sources : List String) :
    Drops results sources sources :=
  ⟨fun _ => true, (List.filter_eq_self.2 fun _ _ => rfl).symm, by simp⟩

section

variable {results others : Table NodeResult} {sources sources' : List String}

theorem Drops.length_le (hdrops : Drops others sources sources') :
    sources'.length ≤ sources.length := by
  obtain ⟨p, rfl, -⟩ := hdrops
  exact List.length_filter_le _ _

theorem Drops.filterMap_eq {α : Type} (hdrops : Drops others sources sources')
    (f : NodeResult → Option α) :
    sources'.filterMap (fun source => (others.get? source).bind f) =
      sources.filterMap fun source => (others.get? source).bind f := by
  obtain ⟨p, rfl, hnone⟩ := hdrops
  rw [List.filterMap_filter]
  refine List.filterMap_congr fun source hsource => ?_
  cases hp : p source with
  | true => rfl
  | false => simp [hnone source hsource hp]

theorem inputShapes_follow (h : TableFollows S results others)
    (hdrops : Drops others sources sources') :
    List.Forall₂ S (inputShapes (sources.map results.get?))
      (inputShapes (sources'.map others.get?)) := by
  have hdropped := hdrops.filterMap_eq (·.shape)
  rw [inputShapes, inputShapes, List.filterMap_map, List.filterMap_map]
  simp only [Function.comp_def, hdropped]
  refine List.rel_filterMap (R := Eq) (fun source other heq => ?_) (List.forall₂_refl _)
  subst heq
  exact rel_bind (h source) fun _ _ hfollows => hfollows.shape

theorem firstType_eq (h : TableFollows S results others) (hdrops : Drops others sources sources') :
    (sources'.map others.get?).findSome? (fun result? => result?.bind (·.type)) =
      (sources.map results.get?).findSome? (fun result? => result?.bind (·.type)) := by
  have hdropped := hdrops.filterMap_eq (·.type)
  rw [← List.head?_filterMap, ← List.head?_filterMap, List.filterMap_map, List.filterMap_map]
  simp only [Function.comp_def, hdropped]
  exact congrArg List.head? (List.filterMap_congr fun source _ => bind_type_eq (h source))

end

variable {catalogue : Catalogue} {layer : Layer} {spec spec' : InputSpec} {node node' : Node}
  {feeds feeds' : List (Option NodeResult)} {result : NodeResult}

theorem inputShape_of_ne (h : node.kind ≠ Graph.inputKind) (size : Option Shape) :
    node.inputShape spec size = size :=
  if_neg fun hin => h hin.1

theorem mem_arity_of_le {edges edges' shapes : Nat} (hedges : edges' ≤ edges) {remark : Remark}
    (h : remark ∈ arity layer edges' shapes) : remark ∈ arity layer edges shapes := by
  simp only [arity, List.mem_append] at h ⊢
  refine h.imp_left (Or.imp_left fun hmem => ?_)
  split at hmem
  · rwa [if_pos (by omega)]
  · cases hmem

theorem evaluate_of_sized (hfind : catalogue.find? node.kind = some layer) {size : Option Shape}
    (hsize : layer.shape (inputShapes feeds) (layer.resolve node.params) = .ok size) {shape : Shape}
    (hshape : node.inputShape spec size = some shape) {type : Option ElementType}
    (htype : node.outputType spec (layer.resolve node.params) feeds = .ok type) :
    node.evaluate catalogue spec feeds = .ok (node.result (some shape) type
      (arity layer feeds.length (inputShapes feeds).length
        ++ checked layer (inputShapes feeds) (layer.resolve node.params))) := by
  have hsized : sized layer (inputShapes feeds) (layer.resolve node.params) = (size, []) := by
    rw [sized, hsize]
  rw [evaluate, hfind]
  refine evaluateAs_eq_ok.2 ⟨type, htype, ?_⟩
  rw [hsized, hshape, List.append_nil]
  rfl

/-- A node without error is followed by one that is sized alike and has no more findings. -/
theorem evaluate_follows (hfind : catalogue.find? node.kind = some layer)
    (heval : node.evaluate catalogue spec feeds = .ok result) (hgood : result.status ≠ .error)
    (hkind : node'.kind = node.kind) (hedges : feeds'.length ≤ feeds.length)
    (hinputs : (inputShapes feeds').length = (inputShapes feeds).length)
    (hsized : ∀ size, layer.shape (inputShapes feeds) (layer.resolve node.params) = .ok size →
      ∃ size', layer.shape (inputShapes feeds') (layer.resolve node'.params) = .ok size' ∧
        Option.Rel S (node.inputShape spec size) (node'.inputShape spec' size'))
    (hchecked : ∀ check findings, layer.check = some check →
      check (inputShapes feeds) (layer.resolve node.params) = .ok findings →
        ∃ findings', check (inputShapes feeds') (layer.resolve node'.params) = .ok findings' ∧
          findings' ⊆ findings)
    (htype : node'.outputType spec' (layer.resolve node'.params) feeds' =
      node.outputType spec (layer.resolve node.params) feeds) :
    ∃ result', node'.evaluate catalogue spec' feeds' = .ok result' ∧ result.Follows S result' := by
  obtain ⟨layer', hsound⟩ := evaluate_sound heval hgood
  obtain rfl : layer' = layer := Option.some.inj (hsound.known.symm.trans hfind)
  obtain ⟨size, hsize, hshape⟩ := hsound.sized
  obtain ⟨size', hsize', hrel⟩ := hsized size hsize
  obtain ⟨shape, hsome⟩ := Option.isSome_iff_exists.1 hsound.shaped
  rw [← hshape, hsome] at hrel
  obtain ⟨shape', hsome', hS⟩ := exists_of_rel_some hrel
  obtain ⟨type, houtput⟩ : ∃ type,
      node.outputType spec (layer'.resolve node.params) feeds = .ok type := by
    rw [evaluate, hfind] at heval
    obtain ⟨type, houtput, -⟩ := evaluateAs_eq_ok.1 heval
    exact ⟨type, houtput⟩
  rw [evaluate_of_sized hfind hsize (hshape.symm.trans hsome) houtput] at heval
  cases heval
  refine ⟨_, evaluate_of_sized (hkind ▸ hfind) hsize' hsome' (htype.trans houtput), ?_⟩
  have hfound : ∀ remark ∈ checked layer' (inputShapes feeds') (layer'.resolve node'.params),
      remark ∈ checked layer' (inputShapes feeds) (layer'.resolve node.params) := by
    intro remark hremark
    rw [checked] at hremark
    split at hremark
    · cases hremark
    · rename_i check hcheck
      cases hfindings : check (inputShapes feeds) (layer'.resolve node.params) with
      | ok findings =>
        obtain ⟨findings', hfindings', hsubset⟩ := hchecked check findings hcheck hfindings
        rw [hfindings'] at hremark
        simp only [checked, hcheck, hfindings]
        exact List.map_subset _ hsubset hremark
      | error fault =>
        refine absurd ((Remark.status_eq_error_iff _).2 ⟨.notChecked fault, ?_, rfl⟩) hgood
        simp [checked, hcheck, hfindings]
  refine ⟨.some hS, rfl, Remark.rank_status_mono fun remark hremark => ?_⟩
  rcases List.mem_append.1 hremark with hmem | hmem
  · rw [hinputs] at hmem
    exact List.mem_append_left _ (mem_arity_of_le hedges hmem)
  · exact List.mem_append_right _ (hfound remark hmem)

theorem outputType_congr {params params' : Fields} (hkind : node'.kind = node.kind)
    (hspec : spec'.type = spec.type)
    (hdeclared : node.kind = Graph.inputKind → params'.get "dtype" = params.get "dtype")
    (hfirst : feeds'.findSome? (fun result? => result?.bind (·.type)) =
      feeds.findSome? (fun result? => result?.bind (·.type))) :
    node'.outputType spec' params' feeds' = node.outputType spec params feeds := by
  simp only [outputType, hkind, hfirst]
  split
  · rename_i hinput
    simp only [hdeclared hinput, declaredType, hspec]
  · rfl

end Node

namespace Graph

/-- Graphs with the same ids and the same edges between them, whose nodes are related one by one. -/
structure Parallel (R : Node → Node → Prop) (graph other : Graph) : Prop where
  nodes : List.Forall₂ R graph.nodes other.nodes
  same : ∀ node node', R node node' → node'.id = node.id
  inner : other.inner = graph.inner

theorem ids_eq {R : Node → Node → Prop} {graph other : Graph}
    (hnodes : List.Forall₂ R graph.nodes other.nodes)
    (hsame : ∀ node node', R node node' → node'.id = node.id) : other.ids = graph.ids := by
  have hids : List.Forall₂ Eq (graph.nodes.map (·.id)) (other.nodes.map (·.id)) :=
    List.rel_map (fun node node' hR => (hsame node node' hR).symm) hnodes
  exact (List.forall₂_eq_eq_eq ▸ hids : graph.ids = other.ids).symm

theorem declares_congr {graph other : Graph} (hids : other.ids = graph.ids) (id : String) :
    other.declares id = graph.declares id := by
  rw [Bool.eq_iff_iff, declares_iff, declares_iff, hids]

namespace Parallel

variable {R : Node → Node → Prop} {graph other : Graph} (h : Parallel R graph other)

include h

theorem ids : other.ids = graph.ids := ids_eq h.nodes h.same

theorem visited : other.visited = graph.visited := by
  rw [Graph.visited, Graph.visited, h.inner, h.ids, h.nodes.length_eq]

theorem cyclic : other.cyclic = graph.cyclic := by
  rw [Graph.cyclic, Graph.cyclic, h.visited, h.ids]

theorem node? (id : String) : Option.Rel R (graph.node? id) (other.node? id) := by
  have hfind : ∀ {nodes nodes' : List Node}, List.Forall₂ R nodes nodes' →
      Option.Rel R (nodes.find? (·.id == id)) (nodes'.find? (·.id == id)) := by
    intro nodes nodes' hnodes
    induction hnodes with
    | nil => exact .none
    | @cons node node' _ _ hR _ ih =>
      rw [List.find?_cons, List.find?_cons, h.same node node' hR]
      cases node.id == id with
      | true => exact .some hR
      | false => exact ih
  exact hfind (List.forall₂_reverse_iff.2 h.nodes)

theorem ordered : List.Forall₂ R graph.ordered other.ordered := by
  rw [Graph.ordered, Graph.ordered, h.visited]
  refine List.rel_filterMap (R := Eq) (fun id id' heq => ?_) (List.forall₂_refl _)
  subst heq
  exact h.node? id

end Parallel

/-- A node follows one that has its turn if its layer does on the shapes that it is given. -/
theorem Turn.follows {catalogue : Catalogue} {graph : Graph} {context : Context} {before : List Node}
    {node node' : Node} {progress : Progress} {result : NodeResult} {layer : Layer}
    {others : Table NodeResult} {spec' : InputSpec} {sources' : List String}
    (hturn : Turn catalogue graph context before node progress result)
    (hgood : result.status ≠ .error) (hfind : catalogue.find? node.kind = some layer)
    (hkind : node'.kind = node.kind) (hspec : spec'.type = graph.input.type)
    (hdeclared : node.kind = inputKind →
      Fields.get (layer.resolve node'.params) "dtype" = Fields.get (layer.resolve node.params) "dtype")
    (hfollows : TableFollows S progress.results others)
    (hdrops : Node.Drops others (graph.sources node.id) sources')
    (hsized : ∀ inputs' size, List.Forall₂ S (progress.shapes graph node.id) inputs' →
      layer.shape (progress.shapes graph node.id) (layer.resolve node.params) = .ok size →
        ∃ size', layer.shape inputs' (layer.resolve node'.params) = .ok size' ∧
          Option.Rel S (node.inputShape graph.input size) (node'.inputShape spec' size'))
    (hchecked : ∀ inputs' check findings, List.Forall₂ S (progress.shapes graph node.id) inputs' →
      layer.check = some check →
      check (progress.shapes graph node.id) (layer.resolve node.params) = .ok findings →
        ∃ findings', check inputs' (layer.resolve node'.params) = .ok findings' ∧
          findings' ⊆ findings) :
    ∃ result', node'.evaluate catalogue spec' (sources'.map others.get?) = .ok result' ∧
      result.Follows S result' := by
  have hinputs := Node.inputShapes_follow hfollows hdrops
  refine Node.evaluate_follows hfind hturn.evaluated hgood hkind ?_ hinputs.length_eq.symm
    (fun size hsize => hsized _ size hinputs hsize)
    (fun check findings hcheck hfindings => hchecked _ check findings hinputs hcheck hfindings)
    (Node.outputType_congr hkind hspec hdeclared (Node.firstType_eq hfollows hdrops))
  simpa using hdrops.length_le

/-- What one turn of the second graph has to do. -/
def Parallel.Step (catalogue : Catalogue) (S : Shape → Shape → Prop) (R : Node → Node → Prop)
    (graph other : Graph) (context : Context) : Prop :=
  ∀ before node after progress result, graph.ordered = before ++ node :: after →
    Turn catalogue graph context before node progress result → result.status ≠ .error →
    ∀ node' others, R node node' → TableFollows S progress.results others →
      ∃ result', node'.evaluate catalogue other.input ((other.sources node'.id).map others.get?) =
        .ok result' ∧ result.Follows S result'

variable {catalogue : Catalogue} {R : Node → Node → Prop} {graph other : Graph} {context : Context}

theorem exists_traceLines (other : Graph) {node : Node} (node' : Node)
    {result result' : NodeResult} {progress : Progress} {before : List Node}
    (hshown : ∀ s s', S s s' → s.all isWritable = true → s'.all isWritable = true)
    (hturn : Turn catalogue graph context before node progress result)
    (hresult : result.Follows S result') (hgood : result.status ≠ .error) :
    ∃ lines, other.traceLines catalogue node' result'.shape = .ok lines := by
  refine (traceLines_eq_ok_iff result'.shape).2 fun _ shape' hshape' => ?_
  obtain ⟨layer, hsound⟩ := Node.evaluate_sound hturn.evaluated hgood
  obtain ⟨shape, hshape⟩ := Option.isSome_iff_exists.1 hsound.shaped
  have hwritten := (traceLines_eq_ok_iff result.shape).1 hturn.traced
    (by rw [hsound.known]; rfl) shape hshape
  have hrel := hresult.shape
  rw [hshape, hshape'] at hrel
  cases hrel with
  | some hS => exact hshown shape shape' hS hwritten

theorem Parallel.run (hpar : Parallel R graph other)
    (hinfer : graph.infer catalogue = .ok context) (hclean : context.hasErrors = false)
    (hshown : ∀ s s', S s s' → s.all isWritable = true → s'.all isWritable = true)
    (hstep : Parallel.Step catalogue S R graph other context) {before after after' : List Node}
    (hsplit : graph.ordered = before ++ after) (hafter : List.Forall₂ R after after')
    {progress final progress' : Progress}
    (hreached : progressAfter catalogue graph before = .ok progress)
    (hrun : after.foldlM (graph.advance catalogue) progress = .ok final)
    (hfollows : TableFollows S progress.results progress'.results)
    (hgood : ∀ entry ∈ progress'.results, entry.2.status ≠ .error) :
    ∃ final', after'.foldlM (other.advance catalogue) progress' = .ok final' ∧
      TableFollows S final.results final'.results ∧
      ∀ entry ∈ final'.results, entry.2.status ≠ .error := by
  induction hafter generalizing before progress progress' with
  | nil =>
    cases hrun
    exact ⟨progress', rfl, hfollows, hgood⟩
  | @cons node node' after after' hR _ ih =>
    obtain ⟨reached, result, hturn⟩ := exists_turn hinfer hsplit
    obtain rfl : reached = progress := Except.ok.inj (hturn.reached.symm.trans hreached)
    have hclear : result.status ≠ .error :=
      (hasErrors_eq_false_iff hinfer).1 hclean _ (Table.mem_of_get? hturn.kept)
    obtain ⟨result', heval', hresult⟩ :=
      hstep before node after reached result hsplit hturn hclear node' progress'.results hR hfollows
    obtain ⟨lines', hlines'⟩ := exists_traceLines other node' hshown hturn hresult hclear
    rw [List.foldlM_cons, bind_eq_ok] at hrun
    obtain ⟨next, hnext, hrun⟩ := hrun
    obtain ⟨same, lines, hsame, -, rfl⟩ := advance_eq_ok.1 hnext
    obtain rfl : same = result := Except.ok.inj (hsame.symm.trans hturn.evaluated)
    have hid := hpar.same node node' hR
    let next' : Progress := ⟨progress'.results.put node.id result', progress'.trace ++ lines'⟩
    have hnext' : other.advance catalogue progress' node' = .ok next' :=
      advance_eq_ok.2 ⟨result', lines', heval', hlines', by rw [hid]⟩
    have hgood' : ∀ entry ∈ next'.results, entry.2.status ≠ .error := by
      intro entry hentry
      rcases Table.mem_put hentry with rfl | hin
      · exact hresult.status_ne hclear
      · exact hgood entry hin
    have hfollows' : TableFollows S (reached.results.put node.id same) next'.results :=
      hfollows.put hresult node.id
    have hafter : progressAfter catalogue graph (before ++ [node]) = .ok
        ⟨reached.results.put node.id same, reached.trace ++ lines⟩ :=
      foldlM_snoc_eq_ok.2 ⟨reached, hreached, hnext⟩
    obtain ⟨final', hrun', hend⟩ := ih (by simpa using hsplit) hafter hrun hfollows' hgood'
    refine ⟨final', ?_, hend⟩
    rw [List.foldlM_cons, hnext']
    exact hrun'

/-- A graph that follows one without errors in every turn has none, and its results follow. -/
theorem Parallel.exists_infer (hpar : Parallel R graph other)
    (hinfer : graph.infer catalogue = .ok context) (hclean : context.hasErrors = false)
    (hshown : ∀ s s', S s s' → s.all isWritable = true → s'.all isWritable = true)
    (hstep : Parallel.Step catalogue S R graph other context) :
    ∃ context', other.infer catalogue = .ok context' ∧ context'.hasErrors = false ∧
      TableFollows S context.results context'.results := by
  have hnone := cyclic_eq_nil hinfer hclean
  have hstart : graph.cycleResults = [] := by rw [cycleResults, hnone, List.foldl_nil]
  have hstart' : other.cycleResults = [] := by
    rw [cycleResults, hpar.cyclic, hnone, List.foldl_nil]
  obtain ⟨final, hrun, hcontext⟩ := infer_eq_ok.1 hinfer
  let start' : Progress := ⟨other.cycleResults, []⟩
  have hempty : TableFollows S graph.cycleResults start'.results := by
    simp only [start', hstart, hstart']
    exact fun _ => .none
  have hfine : ∀ entry ∈ start'.results, entry.2.status ≠ .error := by
    simp [start', hstart']
  obtain ⟨final', hrun', hfollows, hgood⟩ := hpar.run hinfer hclean hshown hstep
    (List.nil_append _).symm hpar.ordered rfl hrun hempty hfine
  have hinfer' := infer_eq_ok.2 ⟨final', hrun', rfl⟩
  refine ⟨_, hinfer', (hasErrors_eq_false_iff hinfer').2 hgood, ?_⟩
  rw [hcontext]
  exact hfollows

end Graph

end LayerGraph

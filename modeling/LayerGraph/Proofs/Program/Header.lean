import LayerGraph.Proofs.Document.Dumps
import LayerGraph.Proofs.Json.Reading
import LayerGraph.Proofs.Program.Inert
set_option autoImplicit false

/-!
The header of a program holds the document of its graph in comments, between a line that announces
it and an empty line. No line of the document is taken for one of these, so the document can be cut
out and read. The graph that is read is the one that the program was made from, unless it has an
integer that is too long to be read.
-/

namespace LayerGraph

namespace Text

def uncomment (line : String) : String := String.ofList (line.toList.drop 2)

theorem uncomment_commentLine (line : String) : uncomment (commentLine line) = line := by
  rw [commentLine]
  split
  · rename_i hempty
    rw [String.isEmpty_iff] at hempty
    rw [hempty]
    rfl
  · rw [uncomment, String.toList_append]
    exact String.ofList_toList

theorem commentLine_ne_empty (line : String) : commentLine line ≠ "" := by
  obtain ⟨rest, hrest, -⟩ := commentLine_toList line
  intro h
  rw [h] at hrest
  cases hrest

end Text

namespace Program

variable {catalogue : Catalogue} {graph : Graph} {context : Context} {settings : Settings}

def announcement : String := Text.commentLine "Serialized graph:"

/-- What the comments say that follow the announcement, up to the next empty line. -/
def serialized (code : String) : String :=
  let following := ((Text.lines code).dropWhile (· != announcement)).drop 1
  Text.unlines ((following.takeWhile (· != "")).map Text.uncomment)

/-- The graph that the header of a program is read as. -/
def readBack? (code : String) : Option Graph :=
  (Json.read (serialized code)).toOption.bind fun v => (Graph.ofValue v).toOption

theorem stamp_ne (now : Moment) : Text.commentLine now.stamp ≠ announcement := by
  intro h
  have hstamp := congrArg Text.uncomment h
  rw [announcement, Text.uncomment_commentLine, Text.uncomment_commentLine, Moment.stamp,
    ← String.toList_inj, String.toList_append] at hstamp
  cases hstamp

theorem bodyLines_eq_cons {model : Model} {body : List String}
    (h : bodyLines graph context model settings = .ok body) : ∃ rest, body = "" :: rest := by
  simp only [bodyLines, bind_eq_ok, pure, Except.pure, Except.ok.injEq] at h
  obtain ⟨samples, -, _, -, target, -, dataset, -, main, -, rfl⟩ := h
  exact ⟨_, rfl⟩

def preface (now : Moment) : List String :=
  importLines ++ [""] ++ Text.comment ["PyTorch model generated by ShapeCanvas", now.stamp]

theorem announcement_not_mem (now : Moment) :
    ∀ line ∈ preface now, (line != announcement) = true := by
  have hfixed : ∀ line ∈
      importLines ++ ["", Text.commentLine "PyTorch model generated by ShapeCanvas"],
        (line != announcement) = true := by
    decide +kernel
  intro line hline
  have hcases : line ∈ importLines ++
      ["", Text.commentLine "PyTorch model generated by ShapeCanvas"] ∨
        line = Text.commentLine now.stamp := by
    simpa [preface, Text.comment, or_assoc] using hline
  rcases hcases with hin | rfl
  · exact hfixed line hin
  · exact bne_iff_ne.2 (stamp_ne now)

theorem headerLines_eq (graph : Graph) (now : Moment) :
    importLines ++ [""] ++ headerLines graph.document now =
      preface now ++
        announcement :: Text.comment (Text.lines (graph.document)) := by
  simp [headerLines, preface, Text.comment, announcement]

theorem serialized_of_lines {code : String} {now : Moment} {body : List String}
    (h : Text.lines code = importLines ++ [""] ++ headerLines graph.document now ++ "" :: body) :
    serialized code = graph.document := by
  have hcomments : ∀ line ∈ Text.comment (Text.lines (graph.document)),
      (line != "") = true := by
    intro line hline
    obtain ⟨text, -, rfl⟩ := List.mem_map.1 hline
    exact bne_iff_ne.2 (Text.commentLine_ne_empty text)
  have huncomment : (Text.comment (Text.lines (graph.document))).map
      Text.uncomment = Text.lines (graph.document) := by
    rw [Text.comment, List.map_map]
    exact List.map_id'' Text.uncomment_commentLine _
  rw [headerLines_eq, List.append_assoc, List.cons_append] at h
  rw [serialized, h, List.dropWhile_append_of_pos (announcement_not_mem now),
    List.dropWhile_cons_of_neg (by simp), List.drop_one, List.tail_cons,
    List.takeWhile_append_of_pos hcomments, List.takeWhile_cons_of_neg (by simp), List.append_nil,
    huncomment, Text.unlines_lines]

theorem serialized_of_emitWith {emission : Emission}
    (hemit : emitWith catalogue graph context settings = .ok emission)
    (hcode : emission.code ≠ "") :
    serialized emission.code = graph.document := by
  obtain ⟨draft, ls, -, hls, hemission⟩ :=
    (emitWith_of_clean ((emitWith_code_ne_iff hemit).1 hcode)).1 hemit
  have hlines : emission.code = Text.unlines ls := by rw [hemission]
  rw [scriptLines_eq, map_eq_ok] at hls
  obtain ⟨body, hbody, hls⟩ := hls
  obtain ⟨rest, rfl⟩ := bodyLines_eq_cons hbody
  have hwritten : Text.lines emission.code = importLines ++ [""] ++
      headerLines graph.document settings.now ++ ("" :: rest).flatMap Text.lines := by
    rw [hlines, ← hls, lines_code]
  rw [List.flatMap_cons, Text.lines_of_not_mem (s := "") (by simp), List.singleton_append]
    at hwritten
  exact serialized_of_lines hwritten

theorem readBack?_of_emitWith {emission : Emission}
    (hemit : emitWith catalogue graph context settings = .ok emission)
    (hcode : emission.code ≠ "") (hjson : graph.toValue.isJson = true) :
    readBack? emission.code = if graph.toValue.writable = true then some graph else none := by
  rw [readBack?, serialized_of_emitWith hemit hcode, Graph.document, Json.read_write _ hjson]
  split
  · rw [Option.bind_some, Graph.ofValue, Graph.decode_toValue]
    rfl
  · rfl

/-- The header can be read back. In every program that is generated for a graph whose numbers are
finite, with no key twice in an object, the comments after the announcement hold the document of the
graph and nothing else, and this document is read as that graph, its values kept apart by their
types. The one exception is an integer that has more digits than are read: with it, nothing is. -/
theorem header_recovers {emission : Emission}
    (hemit : emitWith catalogue graph context settings = .ok emission)
    (hcode : emission.code ≠ "") (hjson : graph.toValue.isJson = true) :
    serialized emission.code = graph.document ∧
      readBack? emission.code = if graph.toValue.writable = true then some graph else none :=
  ⟨serialized_of_emitWith hemit hcode, readBack?_of_emitWith hemit hcode hjson⟩

/-- A graph with values of every type in a parameter, and with texts that have to be escaped. -/
def motley : Graph where
  nodes := [⟨"in\n", "Input", "# \\ \"", [("shape", .list [.int 1, .int 8])]⟩,
    ⟨"act", "ReLU", "", [("mix", .list [.int 1, .float (.ofDecimal false 1 0), .bool true, .null,
      .object [("\t", .float (.ofDecimal true 15 (-9)))], .list [], .str "\u0001"])]⟩]
  edges := [⟨"1", "in\n", "act", some ""⟩]

theorem motley_recovered :
    ∃ context emission, emitWith Catalogue.standard motley context dated = .ok emission ∧
      emission.code ≠ "" ∧ motley.toValue.isJson = true ∧
      readBack? emission.code = some motley := by
  have hgraph : motley.toValue.writable = true := by decide +kernel
  have hnests : motley.nestsWithin dated.nesting = true := by decide +kernel
  have hjson : motley.toValue.isJson = true := by decide +kernel
  have hsize : isWritable dated.datasetSize = true :=
    isWritable_of_lt_two_pow (k := 3) (by decide) (by decide)
  have hrun : (motley.infer Catalogue.standard).map (·.hasErrors) = .ok false :=
    eq_ok_of_toOption (by decide +kernel)
  obtain ⟨context, hinfer, hclean⟩ := map_eq_ok.1 hrun
  obtain ⟨emission, hemit, hgenerated⟩ := generated_of_clean hgraph hnests hsize hinfer hclean
  obtain ⟨-, hread⟩ := header_recovers hemit hgenerated.code hjson
  rw [if_pos hgraph] at hread
  exact ⟨context, emission, hemit, hgenerated.code, hjson, hread⟩

/-- No layer looks at the long integer, so a program is generated, but nothing is read from its
header. -/
theorem sloped_lost :
    (sloped (.int (Nat.pow 10 4300))).toValue.isJson = true ∧
    ∃ emission, emit Catalogue.standard (sloped (.int (Nat.pow 10 4300))) dated = .ok emission ∧
      emission.code ≠ "" ∧ readBack? emission.code = none := by
  have hjson : (sloped (.int (Nat.pow 10 4300))).toValue.isJson = true := by decide +kernel
  have hlong : ¬(sloped (.int (Nat.pow 10 4300))).toValue.writable = true := by decide +kernel
  have hrun : ((sloped (.int (Nat.pow 10 4300))).infer Catalogue.standard).map (·.hasErrors) =
      .ok false := eq_ok_of_toOption (by decide +kernel)
  have hgiven : (emit Catalogue.standard (sloped (.int (Nat.pow 10 4300))) dated).map
      (·.warnings) = .ok [] := eq_ok_of_toOption (by decide +kernel)
  obtain ⟨emission, hemit, -⟩ := map_eq_ok.1 hgiven
  obtain ⟨context, hinfer, hwith⟩ := emit_eq_ok.1 hemit
  obtain ⟨found, hfound, hclean⟩ := map_eq_ok.1 hrun
  obtain rfl : found = context := Except.ok.inj (hfound.symm.trans hinfer)
  have hcode : emission.code ≠ "" := (emitWith_code_ne_iff hwith).2 hclean
  refine ⟨hjson, emission, hemit, hcode, ?_⟩
  rw [readBack?_of_emitWith hwith hcode hjson, if_neg hlong]

end Program

end LayerGraph

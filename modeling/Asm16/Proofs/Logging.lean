import Asm16.Proofs.Editing
import Asm16.Proofs.FirstFault

/-! The log of an assembly. Keeping a log does not change what a source is assembled to. The log has the lines that
the first pass takes: up to the one at fault, or all lines that could be read. A label that is missing is found only
after that, so that its line may be any of those in the log. -/

namespace Asm16.Assembly

theorem fst_addLinesLogged (verbose : Bool) (evaluate : Evaluator) (number : Nat) (log : List Text)
    (layout : Layout) (lines : List Text) :
    (layout.addLinesLogged verbose evaluate number log lines).1 = layout.addLines evaluate number lines := by
  induction lines generalizing number log layout with
  | nil => rfl
  | cons line rest ih =>
    rw [Layout.addLinesLogged, Layout.addLines]
    cases layout.addLine evaluate number line with
    | error e => rfl
    | ok next => exact ih (number + 1) _ next

theorem result_parseLogged (verbose : Bool) (evaluate : Evaluator) (source : Source) :
    (parseLogged verbose evaluate source).result = parse evaluate source := by
  have hlines := fst_addLinesLogged verbose evaluate 1 [] .start source.lines
  rw [parse, Layout.ofSource, ← hlines, parseLogged]
  rcases Layout.addLinesLogged verbose evaluate 1 [] .start source.lines with ⟨e | layout, log⟩
  · rfl
  · cases source.stop <;> rfl

/-- The log of lines that are numbered from one: each has its number, a colon and a space before it and a newline
behind it. -/
def logText (lines : List Text) : Text :=
  (lines.zipIdx 1).flatMap fun entry => Text.decimal entry.2 ++ ascii ": " ++ entry.1 ++ [Text.newline]

theorem logText_eq (lines : List Text) :
    logText lines = ((lines.zipIdx 1).map fun entry => logLine entry.2 entry.1).flatten := List.flatMap_def

theorem log_parseLogged (verbose : Bool) (evaluate : Evaluator) (source : Source) :
    (parseLogged verbose evaluate source).log =
      (Layout.addLinesLogged verbose evaluate 1 [] .start source.lines).2.reverse.flatten := by
  rw [parseLogged]
  rcases Layout.addLinesLogged verbose evaluate 1 [] .start source.lines with ⟨e | layout, log⟩
  · rfl
  · cases source.stop <;> rfl

theorem snd_addLinesLogged_quiet (evaluate : Evaluator) (number : Nat) (log : List Text) (layout : Layout)
    (lines : List Text) : (layout.addLinesLogged false evaluate number log lines).2 = log := by
  induction lines generalizing number layout with
  | nil => rfl
  | cons line rest ih =>
    rw [Layout.addLinesLogged]
    cases layout.addLine evaluate number line with
    | error e => rfl
    | ok next => exact ih (number + 1) next

theorem addLinesLogged_append {evaluate : Evaluator} {number : Nat} {layout middle : Layout}
    {lines : List Text} (h : layout.addLines evaluate number lines = .ok middle) (log rest : List Text) :
    layout.addLinesLogged true evaluate number log (lines ++ rest) =
      middle.addLinesLogged true evaluate (number + lines.length)
        (((lines.zipIdx number).map fun entry => logLine entry.2 entry.1).reverse ++ log) rest := by
  induction lines generalizing number log layout with
  | nil =>
    obtain rfl : layout = middle := Except.ok.inj h
    rfl
  | cons line lines ih =>
    rw [Layout.addLines] at h
    cases hline : layout.addLine evaluate number line with
    | error e =>
      rw [hline] at h
      contradiction
    | ok next =>
      rw [hline] at h
      have hrest := ih h (logLine number line :: log)
      rw [List.cons_append, Layout.addLinesLogged, hline]
      simp only [if_pos, hrest, List.length_cons, List.zipIdx_cons, List.map_cons, List.reverse_cons, List.append_assoc,
        List.singleton_append]
      rw [Nat.add_assoc, Nat.add_comm 1]

theorem log_of_addLines {evaluate : Evaluator} {source : Source} {layout : Layout}
    (h : Layout.start.addLines evaluate 1 source.lines = .ok layout) :
    (parseLogged true evaluate source).log = logText source.lines := by
  have hlog := addLinesLogged_append h [] []
  rw [List.append_nil, List.append_nil] at hlog
  rw [log_parseLogged, hlog, Layout.addLinesLogged, List.reverse_reverse, logText_eq]

theorem log_of_addLine {evaluate : Evaluator} {source : Source} {before after : List Text} {line : Text}
    {layout : Layout} {fault : Fault} (hlines : source.lines = before ++ line :: after)
    (hbefore : Layout.start.addLines evaluate 1 before = .ok layout)
    (hfault : layout.addLine evaluate (before.length + 1) line = .error fault) :
    (parseLogged true evaluate source).log = logText (before ++ [line]) := by
  have hlog := addLinesLogged_append hbefore [] (line :: after)
  rw [Nat.add_comm, List.append_nil, Layout.addLinesLogged, hfault] at hlog
  rw [log_parseLogged, hlines, hlog, logText_eq, List.zipIdx_append]
  simp [Nat.add_comm]

theorem stop_ofText_eq_some {text : Text} {fault : Fault} (h : (Source.ofText text).stop = some fault) :
    (Text.lines text).overlong = true ∧ fault = .lineTooLong := by
  have hstop : (if (Text.lines text).overlong then some Fault.lineTooLong else none) = some fault := h
  split at hstop
  · rename_i hlong
    exact ⟨hlong, (Option.some.inj hstop).symm⟩
  · contradiction

theorem short_of_ofSource {evaluate : Evaluator} {text : Text} {layout : Layout}
    (h : Layout.ofSource evaluate (Source.ofText text) = .ok layout) :
    ∀ p ∈ Text.pieces text, p.length < Text.lineLimit := by
  apply Text.short_of_read
  by_contra hlong
  have hstop : (Source.ofText text).stop = some .lineTooLong := if_pos (by simpa using hlong)
  rw [Layout.ofSource, Layout.addLines_of_ofSource h, hstop] at h
  contradiction

/-- The number of lines of a text that are logged, by what the text is assembled to. -/
inductive Extent (text : Text) : Except SyntaxError Program → Nat → Prop
  /-- A line with a label or a statement at fault is the last one. -/
  | line {e : SyntaxError} {n : Nat} (hcause : e.cause.isSpelling = true ∨ e.cause.isLayout = true)
    (hnumber : e.line = n + 1) (htext : (Text.lines text).lines[n]? = some e.text) : Extent text (.error e) e.line
  /-- All lines before the first one that is too long could be read. -/
  | tooLong {done later : List Text} {line : Text} (hpieces : Text.pieces text = done ++ line :: later)
    (hshort : ∀ p ∈ done, p.length < 65536) (hlong : 65536 ≤ line.length)
    (hlines : (Text.lines text).lines = done.map Text.chomp) :
    Extent text (.error ⟨done.length + 1, [], .lineTooLong⟩) done.length
  /-- A label is found to be missing only after all lines, whichever of them refers to it. -/
  | missing {e : SyntaxError} {name : Text} (hshort : ∀ p ∈ Text.pieces text, p.length < 65536)
    (hcause : e.cause = .labelMissing name) : Extent text (.error e) (Text.lines text).lines.length
  | assembled {p : Program} (hshort : ∀ p ∈ Text.pieces text, p.length < 65536) :
    Extent text (.ok p) (Text.lines text).lines.length

theorem exists_log_of_firstFault {evaluate : Evaluator} {text : Text} {e : SyntaxError}
    (h : FirstFault evaluate (Source.ofText text) e) :
    ∃ k, Extent text (.error e) k ∧
      (parseLogged true evaluate (Source.ofText text)).log = logText ((Text.lines text).lines.take k) := by
  cases h with
  | line before after layout hlines hbefore hnumber hfault =>
    have htext : (Text.lines text).lines = before ++ e.text :: after := hlines
    refine ⟨e.line, .line (addLine_fault hfault) hnumber ?_, ?_⟩
    · rw [htext, List.getElem?_append_right (Nat.le_refl _), Nat.sub_self]
      rfl
    · rw [hnumber] at hfault
      rw [log_of_addLine hlines hbefore hfault, htext, hnumber, List.take_length_add_append]
      rfl
  | stop layout hlines hstop htext hnumber =>
    obtain ⟨hover, hcause⟩ := stop_ofText_eq_some hstop
    obtain ⟨done, line, later, hpieces, hshort, hlong, hdone⟩ := Text.exists_long_of_overlong hover
    have hlength : (Source.ofText text).lines.length = done.length :=
      (congrArg List.length hdone).trans (List.length_map _)
    rw [hlength] at hnumber
    obtain ⟨number, line, cause⟩ := e
    obtain rfl : number = done.length + 1 := hnumber
    obtain rfl : line = [] := htext
    obtain rfl : cause = .lineTooLong := hcause
    refine ⟨done.length, .tooLong hpieces hshort hlong hdone, ?_⟩
    rw [log_of_addLines hlines, hdone, List.take_of_length_le (by rw [List.length_map]), ← hdone]
    rfl

/-- The mode changes nothing in what a text is assembled to, and without it there is no log. In verbose mode the log
has the lines of the text in order, each with its number, as far as the first pass goes. -/
theorem parseLogged_verbose (evaluate : Evaluator) (text : Text) :
    (∀ verbose, (parseLogged verbose evaluate (Source.ofText text)).result = parse evaluate (Source.ofText text)) ∧
    (parseLogged false evaluate (Source.ofText text)).log = [] ∧
    ∃ k, Extent text (parse evaluate (Source.ofText text)) k ∧
      (parseLogged true evaluate (Source.ofText text)).log = logText ((Text.lines text).lines.take k) := by
  refine ⟨fun verbose => result_parseLogged verbose evaluate _, ?_, ?_⟩
  · rw [log_parseLogged, snd_addLinesLogged_quiet]
    rfl
  cases hlayout : Layout.ofSource evaluate (Source.ofText text) with
  | error e =>
    have hfault := Layout.ofSource_eq_error_iff.1 hlayout
    rw [parse_of_firstFault hfault]
    exact exists_log_of_firstFault hfault
  | ok layout =>
    have hshort := short_of_ofSource hlayout
    have hlog := log_of_addLines (Layout.addLines_of_ofSource hlayout)
    refine ⟨(Text.lines text).lines.length, ?_, ?_⟩
    · cases hparse : parse evaluate (Source.ofText text) with
      | ok p => exact .assembled hshort
      | error e =>
        obtain ⟨name, hname⟩ := exists_labelMissing_of_layout hlayout hparse
        exact .missing hshort hname
    · rw [hlog, List.take_length]
      rfl

/-- The error is on the first line, and the log goes on to the last. -/
example :
    (parseLogged true Constant.closed (Source.ofText (ascii "SET A, gone\n:end"))).log =
      ascii "1: SET A, gone\n2: :end\n" ∧
    (parse Constant.closed (Source.ofText (ascii "SET A, gone\n:end"))).map Program.words =
      .error ⟨1, ascii "SET A, gone", .labelMissing (ascii "gone")⟩ := by
  decide +kernel

end Asm16.Assembly

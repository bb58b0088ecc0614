import Asm16.Assembly.Assemble
import Asm16.Proofs.Binding
import Asm16.Proofs.Editing

/-! Line endings. A carriage return before a newline belongs to the end of the line when a source is
assembled, and is a blank when its pieces are scanned as they stand. Both come to the same tokens, except
where a line ends within an expression that is not closed: there the scanner takes the carriage return for
a part of the expression. -/

namespace Asm16

namespace Text

def withReturns (t : Text) : Text := t.flatMap fun b => if b = newline then [carriageReturn, newline] else [b]

def addReturns : List Text → List Text
  | [] => []
  | [p] => [p]
  | p :: q :: more => (p ++ [carriageReturn]) :: addReturns (q :: more)

theorem withReturns_append (t u : Text) : withReturns (t ++ u) = withReturns t ++ withReturns u :=
  List.flatMap_append

theorem withReturns_newline_cons (t : Text) :
    withReturns (newline :: t) = carriageReturn :: newline :: withReturns t := by
  unfold withReturns
  rw [List.flatMap_cons, if_pos rfl]
  rfl

theorem withReturns_of_notMem {p : Text} (h : newline ∉ p) : withReturns p = p := by
  induction p with
  | nil => rfl
  | cons b p ih =>
    rw [List.mem_cons, not_or] at h
    have hrest := ih h.2
    unfold withReturns at hrest ⊢
    rw [List.flatMap_cons, if_neg (Ne.symm h.1), hrest]
    rfl

theorem addReturns_ne_nil {ps : List Text} (h : ps ≠ []) : addReturns ps ≠ [] := by
  fun_cases addReturns ps with
  | case1 => contradiction
  | case2 p => simp
  | case3 p q more => simp

theorem stacked_addReturns {ps : List Text} (h : ∀ p ∈ ps, newline ∉ p) :
    stacked (addReturns ps) = withReturns (stacked ps) := by
  fun_induction addReturns ps with
  | case1 => rfl
  | case2 p =>
    have hp := withReturns_of_notMem (h p (List.mem_singleton_self p))
    rw [stacked, List.intercalate_singleton, hp]
  | case3 p q more ih =>
    obtain ⟨hp, hrest⟩ := List.forall_mem_cons.1 h
    obtain ⟨r, rest, heq⟩ := List.exists_cons_of_ne_nil (addReturns_ne_nil (List.cons_ne_nil q more))
    rw [heq, stacked_cons_cons, ← heq, ih hrest, stacked_cons_cons, withReturns_append,
      withReturns_of_notMem hp, withReturns_newline_cons, List.append_assoc]
    rfl

theorem mem_addReturns {ps : List Text} {r : Text} (h : r ∈ addReturns ps) :
    ∃ p ∈ ps, r = p ∨ r = p ++ [carriageReturn] := by
  fun_induction addReturns ps with
  | case1 => contradiction
  | case2 p => exact ⟨p, List.mem_singleton_self p, .inl (List.mem_singleton.1 h)⟩
  | case3 p q more ih =>
    rcases List.mem_cons.1 h with rfl | hmem
    · exact ⟨p, List.mem_cons_self .., .inr rfl⟩
    · obtain ⟨p', hp', hr⟩ := ih hmem
      exact ⟨p', List.mem_cons_of_mem _ hp', hr⟩

theorem pieces_withReturns (t : Text) : pieces (withReturns t) = addReturns (pieces t) := by
  have hpieces : ∀ p ∈ pieces t, newline ∉ p := fun p => newline_notMem_of_mem_pieces
  have hreturn : newline ≠ carriageReturn := by decide
  rw [← pieces_stacked (addReturns_ne_nil (pieces_ne_nil t)), stacked_addReturns hpieces, stacked_pieces]
  intro r hr
  obtain ⟨p, hp, rfl | rfl⟩ := mem_addReturns hr
  · exact hpieces r hp
  · rw [List.mem_append, not_or, List.mem_singleton]
    exact ⟨hpieces p hp, hreturn⟩

theorem chomp_append_return (p : Text) : chomp (p ++ [carriageReturn]) = p := by
  simp [chomp]

theorem map_chomp_delivered_addReturns {ps : List Text} (h : ∀ p ∈ ps, carriageReturn ∉ p) :
    (delivered (addReturns ps)).map chomp = (delivered ps).map chomp := by
  fun_induction addReturns ps with
  | case1 => rfl
  | case2 p => rfl
  | case3 p q more ih =>
    obtain ⟨hp, hrest⟩ := List.forall_mem_cons.1 h
    rw [delivered_cons (addReturns_ne_nil (List.cons_ne_nil q more)), delivered_cons (List.cons_ne_nil q more),
      List.map_cons, List.map_cons, ih hrest, chomp_append_return, chomp_of_notMem hp]

theorem lines_withReturns {t : Text} (hreturn : carriageReturn ∉ t)
    (hshort : ∀ p ∈ pieces t, p.length + 1 < lineLimit) : lines (withReturns t) = lines t := by
  have hlonger : ∀ r ∈ pieces (withReturns t), r.length < lineLimit := by
    rw [pieces_withReturns]
    intro r hr
    obtain ⟨p, hp, rfl | rfl⟩ := mem_addReturns hr
    · exact Nat.lt_of_succ_lt (hshort r hp)
    · rw [List.length_append]
      exact hshort p hp
  have hclean : ∀ p ∈ pieces t, carriageReturn ∉ p := fun p hp hmem => hreturn (mem_of_mem_splitOn hp hmem)
  rw [lines_of_short hlonger, lines_of_short fun p hp => Nat.lt_of_succ_lt (hshort p hp), pieces_withReturns,
    map_chomp_delivered_addReturns hclean]

theorem eq_delivered_append {ps : List Text} (hne : ps ≠ []) :
    ps = delivered ps ++ if ps.getLast? = some [] then [[]] else [] := by
  fun_induction delivered ps with
  | case1 => contradiction
  | case2 => rfl
  | case3 p hp => simp [hp]
  | case4 p q more ih =>
    rw [List.getLast?_cons_cons, List.cons_append, ← ih (List.cons_ne_nil q more)]

theorem getLast?_eq_nil_iff {ps : List Text} (hne : ps ≠ []) (h : ∀ p ∈ ps, newline ∉ p) :
    ps.getLast? = some [] ↔ stacked ps = [] ∨ (stacked ps).getLast? = some newline := by
  induction ps with
  | nil => contradiction
  | cons p rest ih =>
    obtain ⟨hp, hrest⟩ := List.forall_mem_cons.1 h
    cases rest with
    | nil =>
      have hlast : p.getLast? ≠ some newline := fun hlast => hp (List.mem_of_getLast? hlast)
      rw [stacked, List.intercalate_singleton]
      simp [hlast]
    | cons q more =>
      rw [List.getLast?_cons_cons, ih (List.cons_ne_nil q more) hrest, stacked_cons_cons,
        List.getLast?_append, List.getLast?_cons, Option.some_or]
      cases hlast : (stacked (q :: more)).getLast? with
      | none => simp [List.getLast?_eq_none_iff.1 hlast]
      | some b =>
        have hstacked : stacked (q :: more) ≠ [] := by
          intro hempty
          rw [hempty] at hlast
          contradiction
        simp [hstacked]

theorem before_append_of_mem {b : UInt8} {t : Text} (h : b ∈ t) (u : Text) : before b (t ++ u) = before b t := by
  unfold before
  induction t with
  | nil => contradiction
  | cons c t ih =>
    rw [List.cons_append, List.takeWhile_cons, List.takeWhile_cons]
    split
    · rename_i hc
      have hne : b ≠ c := by
        rintro rfl
        simp at hc
      rw [ih (List.mem_of_ne_of_mem hne h)]
    · rfl

end Text

namespace Token

def isUnclosed (token : Text) : Bool :=
  expressionStart.isPrefixOf token && staysOpen 1 (token.drop expressionStart.length)

/-- A token as it is read when a carriage return follows at the end of its line. -/
def returned (token : Text) : Text := if isUnclosed token then token ++ [Text.carriageReturn] else token

/-- Whether a line ends within an expression: no comment ends it before and nothing closes it. -/
def endsOpen (line : Text) : Bool := !line.contains Text.semicolon && (ofLine line).any isUnclosed

theorem isUnclosed_expressionStart (inner : Text) : isUnclosed (expressionStart ++ inner) = staysOpen 1 inner := by
  have hstart : expressionStart.isPrefixOf (expressionStart ++ inner) = true :=
    List.isPrefixOf_iff_prefix.2 (List.prefix_append expressionStart inner)
  unfold isUnclosed
  rw [hstart, Bool.true_and, List.drop_left]

theorem isUnclosed_singleton (b : UInt8) : isUnclosed [b] = false := by
  simp [isUnclosed, expressionStart, List.isPrefixOf]

theorem isUnclosed_of_isRun {w : Text} (h : isRun w = true) : isUnclosed w = false := by
  cases w with
  | nil => rfl
  | cons b rest =>
    have hgoes : stops (b :: rest) = false := by
      simpa using (Bool.and_eq_true_iff.1 h).1
    have hstart : expressionStart.isPrefixOf (b :: rest) = false := by
      unfold stops at hgoes
      exact (Bool.or_eq_false_iff.1 hgoes).2
    unfold isUnclosed
    rw [hstart, Bool.false_and]

theorem staysOpen_of_closes {depth : Nat} {inner : Text} (h : closes depth inner = true) :
    staysOpen depth inner = false := by
  fun_induction closes depth inner with
  | case1 => contradiction
  | case2 depth rest ih => simpa [staysOpen] using ih h
  | case3 depth rest hopen hdepth => simp [staysOpen, hopen, hdepth]
  | case4 depth rest hopen hdepth ih => simpa [staysOpen, hopen, hdepth] using ih h
  | case5 depth b rest hopen hclose ih => simpa [staysOpen, hopen, hclose] using ih h

theorem staysOpen_append_return (depth : Nat) (t : Text) :
    staysOpen depth (t ++ [Text.carriageReturn]) = staysOpen depth t := by
  fun_induction staysOpen depth t with
  | case1 depth => rfl
  | case2 depth rest ih => simpa [staysOpen] using ih
  | case3 depth rest hopen hdepth => simp [staysOpen, hopen, hdepth]
  | case4 depth rest hopen hdepth ih => simpa [staysOpen, hopen, hdepth] using ih
  | case5 depth b rest hopen hclose ih => simpa [staysOpen, hopen, hclose] using ih

theorem stops_append_return {t : Text} (h : stops t = true) : stops (t ++ [Text.carriageReturn]) = true := by
  have hreturn : stops [Text.carriageReturn] = true := by decide
  cases t with
  | nil => exact hreturn
  | cons b rest => rw [List.cons_append, stops_cons_append b rest hreturn, h]

theorem returned_eq_iff {token : Text} : returned token = token ↔ isUnclosed token = false := by
  unfold returned
  split
  · rename_i h
    simp [h]
  · rename_i h
    simp [h]

theorem Lexed.append_return {t : Text} {tokens : List Text} (h : Lexed t tokens) :
    Lexed (t ++ [Text.carriageReturn]) (tokens.map returned) := by
  -- Only an expression that is not closed runs on to the end, and it is the last token.
  induction h with
  | nil => exact .blank (by decide) .nil
  | blank hb _ ih => exact .blank hb ih
  | @separator b t tokens hb _ ih =>
    rw [List.map_cons, returned_eq_iff.2 (isUnclosed_singleton b)]
    exact .separator hb ih
  | @expression inner t tokens hcloses _ ih =>
    have hclosed : isUnclosed (expressionStart ++ inner) = false := by
      rw [isUnclosed_expressionStart, staysOpen_of_closes hcloses]
    rw [List.map_cons, returned_eq_iff.2 hclosed, List.append_assoc]
    exact .expression hcloses ih
  | @unclosed inner hopen =>
    have hreturned : returned (expressionStart ++ inner) = expressionStart ++ (inner ++ [Text.carriageReturn]) := by
      unfold returned
      rw [isUnclosed_expressionStart, if_pos hopen, List.append_assoc]
    rw [List.map_singleton, hreturned, List.append_assoc]
    exact .unclosed (by rwa [staysOpen_append_return])
  | @word w t tokens hne hrun hstops _ ih =>
    rw [List.map_cons, returned_eq_iff.2 (isUnclosed_of_isRun hrun), List.append_assoc]
    exact .word hne hrun (stops_append_return hstops) ih

theorem map_returned_eq_iff {tokens : List Text} :
    tokens.map returned = tokens ↔ tokens.any isUnclosed = false := by
  have hmap : tokens.map returned = tokens ↔ ∀ token ∈ tokens, returned token = token := by
    nth_rewrite 2 [← List.map_id tokens]
    exact List.map_inj_left
  simp only [hmap, returned_eq_iff, List.any_eq_false, Bool.not_eq_true]

/-- A carriage return at the end of a line belongs to the comment, or to an expression that is still open,
or is left out as a blank. -/
theorem ofLine_append_return (line : Text) :
    ofLine (line ++ [Text.carriageReturn]) =
      if endsOpen line then (ofLine line).map returned else ofLine line := by
  by_cases hcomment : Text.semicolon ∈ line
  · have hends : endsOpen line = false := by simp [endsOpen, hcomment]
    rw [hends, if_neg (by decide), ofLine, Text.before_append_of_mem hcomment]
    rfl
  · have hends : endsOpen line = (ofLine line).any isUnclosed := by simp [endsOpen, hcomment]
    have hlonger : Text.semicolon ∉ line ++ [Text.carriageReturn] := by
      rw [List.mem_append, not_or, List.mem_singleton]
      exact ⟨hcomment, by decide⟩
    have hlexed : Lexed line (ofLine line) := by
      rw [ofLine, Text.before_of_notMem hcomment]
      exact tokensFrom_eq_iff.1 rfl
    have hreturned : ofLine (line ++ [Text.carriageReturn]) = (ofLine line).map returned := by
      rw [ofLine, Text.before_of_notMem hlonger]
      exact tokensFrom_eq_iff.2 hlexed.append_return
    rw [hreturned, hends]
    split
    · rfl
    · rename_i hclosed
      exact map_returned_eq_iff.2 (by simpa using hclosed)

theorem ofLine_append_return_eq_iff {line : Text} :
    ofLine (line ++ [Text.carriageReturn]) = ofLine line ↔ endsOpen line = false := by
  rw [ofLine_append_return]
  split
  · rename_i hends
    have hany : (ofLine line).any isUnclosed = true := (Bool.and_eq_true_iff.1 hends).2
    rw [map_returned_eq_iff, hany, hends]
  · rename_i hends
    simp [hends]

theorem ofLine_eq_of_chomp (piece : Text) :
    ofLine piece =
      if endsOpen (Text.chomp piece) = true ∧ piece = Text.chomp piece ++ [Text.carriageReturn] then
        (ofLine (Text.chomp piece)).map returned
      else ofLine (Text.chomp piece) := by
  by_cases hlast : piece.getLast? = some Text.carriageReturn
  · obtain ⟨line, rfl⟩ := List.getLast?_eq_some_iff.1 hlast
    rw [Text.chomp_append_return, ofLine_append_return]
    simp
  · have hchomp : Text.chomp piece = piece := if_neg hlast
    rw [hchomp, if_neg]
    rintro ⟨-, hpiece⟩
    simp at hpiece

theorem map_ofLine_addReturns_eq_iff {ps : List Text} :
    (Text.addReturns ps).map ofLine = ps.map ofLine ↔ ∀ line ∈ ps.dropLast, endsOpen line = false := by
  fun_induction Text.addReturns ps with
  | case1 => simp
  | case2 p => simp
  | case3 p q more ih =>
    rw [List.map_cons, List.map_cons, List.cons.injEq, ofLine_append_return_eq_iff, ih, List.dropLast_cons_cons,
      List.forall_mem_cons]

theorem ofSource_withReturns_eq_iff {source : Text} :
    ofSource (Text.withReturns source) = ofSource source ↔
      ∀ line ∈ (Text.pieces source).dropLast, endsOpen line = false := by
  have hpieces := Text.pieces_withReturns source
  rw [← map_ofLine_addReturns_eq_iff, ← hpieces]
  rfl

/-- A source scanned as it stands has a row of tokens for each line that is read from it, and one more row,
without tokens, if nothing follows its last newline. A row has the tokens of its line, but an expression
that is open at a carriage return takes it in. So carriage returns before the newlines make no difference if
and only if no newline stands within an expression. -/
theorem ofSource_of_short {source : Text} (h : ∀ piece ∈ Text.pieces source, piece.length < Text.lineLimit) :
    (Text.lines source).overlong = false ∧
    (∀ (i : Nat) (line : Text), (Text.lines source).lines[i]? = some line → (ofSource source)[i]? = some
      (if endsOpen line = true ∧ (Text.pieces source)[i]? = some (line ++ [Text.carriageReturn]) then
        (ofLine line).map returned
      else ofLine line)) ∧
    (ofSource source).drop (Text.lines source).lines.length =
      (if source = [] ∨ source.getLast? = some Text.newline then [[]] else []) ∧
    (ofSource (Text.withReturns source) = ofSource source ↔
      ∀ line ∈ (Text.pieces source).dropLast, endsOpen line = false) := by
  have hlines := Text.lines_of_short h
  have hsplit := Text.eq_delivered_append (Text.pieces_ne_nil source)
  have hrows : ofSource source = (Text.pieces source).map ofLine := rfl
  refine ⟨by rw [hlines], ?_, ?_, ofSource_withReturns_eq_iff⟩
  · -- A line that is read is a piece without its carriage return, in the same place.
    intro i line hline
    rw [hlines, List.getElem?_map] at hline
    obtain ⟨piece, hdelivered, rfl⟩ := Option.map_eq_some_iff.1 hline
    have hpiece : (Text.pieces source)[i]? = some piece := by
      obtain ⟨hi, -⟩ := List.getElem?_eq_some_iff.1 hdelivered
      nth_rewrite 1 [hsplit]
      rw [List.getElem?_append_left hi, hdelivered]
    rw [hrows, List.getElem?_map, hpiece, Option.map_some, ofLine_eq_of_chomp]
    simp only [Option.some.injEq]
  · have hlast := Text.getLast?_eq_nil_iff (Text.pieces_ne_nil source) fun p => Text.newline_notMem_of_mem_pieces
    rw [Text.stacked_pieces] at hlast
    have hdrop := congrArg (List.drop (Text.delivered (Text.pieces source)).length) hsplit
    rw [List.drop_left] at hdrop
    rw [hrows, hlines, List.length_map, ← List.map_drop, hdrop]
    simp only [hlast]
    split
    · rw [List.map_singleton, show ofLine [] = [] from tokensFrom_eq_iff.2 .nil]
    · rfl

/-- The first line ends within an expression, and the carriage return there becomes a part of it. -/
theorem ofSource_of_short_open_expression :
    (∀ piece ∈ Text.pieces (ascii "DAT $(1\r\nDAT $(2)\r\n"), piece.length < Text.lineLimit) ∧
    (Text.lines (ascii "DAT $(1\r\nDAT $(2)\r\n")).lines.map ofLine =
      [[ascii "DAT", ascii "$(1"], [ascii "DAT", ascii "$(2)"]] ∧
    (ofSource (ascii "DAT $(1\r\nDAT $(2)\r\n"))[0]? = some [ascii "DAT", ascii "$(1\r"] ∧
    (ofSource (ascii "DAT $(1\r\nDAT $(2)\r\n"))[1]? = some [ascii "DAT", ascii "$(2)"] ∧
    (ofSource (ascii "DAT $(1\r\nDAT $(2)\r\n")).drop 2 = [[]] := by
  have hshort : ∀ piece ∈ Text.pieces (ascii "DAT $(1\r\nDAT $(2)\r\n"), piece.length < Text.lineLimit := by decide
  have hlines : (Text.lines (ascii "DAT $(1\r\nDAT $(2)\r\n")).lines = [ascii "DAT $(1", ascii "DAT $(2)"] := by
    decide
  obtain ⟨-, hrow, hextra, -⟩ := ofSource_of_short hshort
  rw [hlines] at hrow hextra
  refine ⟨hshort, ?_, ?_, ?_, hextra⟩
  · rw [hlines]
    decide +kernel
  · rw [hrow 0 (ascii "DAT $(1") rfl]
    decide +kernel
  · rw [hrow 1 (ascii "DAT $(2)") rfl]
    decide +kernel

theorem ofSource_ne_of_open_expression :
    (Text.lines (ascii "$(1\r\n")).lines.map ofLine = [[ascii "$(1"]] ∧
      ofSource (ascii "$(1\r\n") = [[ascii "$(1\r"], []] ∧ ofSource (ascii "$(1\n") = [[ascii "$(1"], []] := by
  decide +kernel

end Token

namespace Assembly

/-- A source without carriage returns is assembled in the same way, with the same program or the same fault
in the same line, when each of its newlines is made a carriage return and a newline. -/
theorem parse_withReturns (evaluate : Evaluator) {source : Text}
    (hreturn : Text.carriageReturn ∉ source) (hshort : ∀ line ∈ Text.pieces source, line.length ≤ 65534) :
    parse evaluate (Source.ofText (Text.withReturns source)) = parse evaluate (Source.ofText source) := by
  have hlimit : ∀ line ∈ Text.pieces source, line.length + 1 < Text.lineLimit := by
    intro line hline
    have hle := hshort line hline
    change line.length + 1 < 65536
    omega
  have hread : Source.ofText (Text.withReturns source) = Source.ofText source := by
    unfold Source.ofText
    rw [Text.lines_withReturns hreturn hlimit]
  rw [hread]

theorem parse_withReturns_open_expression :
    Text.carriageReturn ∉ ascii "DAT 1\n\n:here DAT $(2\n" ∧
    (∀ line ∈ Text.pieces (ascii "DAT 1\n\n:here DAT $(2\n"), line.length ≤ 65534) ∧
    parse Constant.closed (Source.ofText (ascii "DAT 1\r\n\r\n:here DAT $(2\r\n")) =
      .error ⟨3, ascii ":here DAT $(2", .notExpression (ascii "2")⟩ := by
  have hreturn : Text.carriageReturn ∉ ascii "DAT 1\n\n:here DAT $(2\n" := by decide
  have hshort : ∀ line ∈ Text.pieces (ascii "DAT 1\n\n:here DAT $(2\n"), line.length ≤ 65534 := by decide
  have hfault : (parse Constant.closed (Source.ofText (ascii "DAT 1\n\n:here DAT $(2\n"))).map Program.words =
      .error ⟨3, ascii ":here DAT $(2", .notExpression (ascii "2")⟩ := by decide +kernel
  have hsame := parse_withReturns Constant.closed hreturn hshort
  exact ⟨hreturn, hshort, hsame.trans (map_eq_error_iff.1 hfault)⟩

end Assembly
end Asm16

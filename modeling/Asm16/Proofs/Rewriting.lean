import Asm16.Proofs.Editing
import Asm16.Proofs.Restatement

/-! Two sources that are almost alike, followed side by side. A line is its declarations and its statement,
and an edit changes these two parts. When each changed line declares its labels at the same address and
has the same words as before, so does the whole source, and its statements keep their lines and addresses. -/

namespace Asm16.Assembly

def declaring (labels : List Text) : List Text := labels.flatMap fun label => [Layout.colonToken, label]

theorem declaring_append_lineStatement (row : List Text) :
    declaring (lineLabels row) ++ lineStatement row = row := by
  fun_induction lineLabels row with
  | case1 label rest ih =>
    rw [lineStatement, if_pos rfl]
    exact congrArg (Layout.colonToken :: label :: ·) ih
  | case2 token label rest hcolon =>
    rw [lineStatement, if_neg hcolon]
    rfl
  | case3 row hrow =>
    rw [lineStatement]
    · rfl
    · exact hrow

theorem lineLabels_declaring_append (labels tokens : List Text) :
    lineLabels (declaring labels ++ tokens) = labels ++ lineLabels tokens := by
  induction labels with
  | nil => rfl
  | cons label rest ih => exact congrArg (label :: ·) ih

theorem lineStatement_declaring_append (labels tokens : List Text) :
    lineStatement (declaring labels ++ tokens) = lineStatement tokens := by
  induction labels with
  | nil => rfl
  | cons label rest ih => exact ih

theorem parts_declaring (labels : List Text) :
    lineLabels (declaring labels) = labels ∧ lineStatement (declaring labels) = [] := by
  have hlabels := lineLabels_declaring_append labels []
  have hstatement := lineStatement_declaring_append labels []
  rw [List.append_nil] at hlabels hstatement
  exact ⟨hlabels.trans (List.append_nil labels), hstatement⟩

def mapOperands (r : Text → List Text → List Text) : List Text → List Text
  | mnemonic :: next :: rest => mnemonic :: r mnemonic (next :: rest)
  | tokens => tokens

theorem parts_of_ne_colon {token : Text} (h : token ≠ Layout.colonToken) (rest : List Text) :
    lineLabels (token :: rest) = [] ∧ lineStatement (token :: rest) = token :: rest := by
  cases rest with
  | nil => exact ⟨rfl, rfl⟩
  | cons next rest => exact ⟨if_neg h, if_neg h⟩

theorem parts_mapOperands (r : Text → List Text → List Text) (row : List Text) :
    lineLabels (mapOperands r (lineStatement row)) = [] ∧
      lineStatement (mapOperands r (lineStatement row)) = mapOperands r (lineStatement row) := by
  fun_induction lineStatement row with
  | case1 label rest ih => exact ih
  | case2 token label rest hcolon => exact parts_of_ne_colon hcolon (r token (label :: rest))
  | case3 row hrow =>
    match row with
    | [] | [token] => exact ⟨rfl, rfl⟩
    | colon :: label :: rest => exact absurd rfl (hrow colon label rest)

def editRow (g : Text → Text) (r : Text → List Text → List Text) (row : List Text) : List Text :=
  declaring ((lineLabels row).map g) ++ mapOperands r (lineStatement row)

theorem lineLabels_editRow (g : Text → Text) (r : Text → List Text → List Text) (row : List Text) :
    lineLabels (editRow g r row) = (lineLabels row).map g := by
  rw [editRow, lineLabels_declaring_append, (parts_mapOperands r row).1, List.append_nil]

theorem lineStatement_editRow (g : Text → Text) (r : Text → List Text → List Text) (row : List Text) :
    lineStatement (editRow g r row) = mapOperands r (lineStatement row) := by
  rw [editRow, lineStatement_declaring_append, (parts_mapOperands r row).2]

section
variable {evaluate : Evaluator} {final final' : Symbols}

theorem parts_declaring_append {tokens : List Text} {p : Grammar.Phrase} (h : p.Spelt evaluate tokens)
    (labels : List Text) : lineLabels (declaring labels ++ tokens) = labels ∧
      lineStatement (declaring labels ++ tokens) = tokens := by
  cases tokens with
  | nil => cases h
  | cons mnemonic operands =>
    obtain ⟨hnone, hsame⟩ := parts_of_ne_colon (head_ne_colon_of_spelt h) operands
    rw [lineLabels_declaring_append, lineStatement_declaring_append, hnone, hsame, List.append_nil]
    exact ⟨rfl, rfl⟩

theorem OnePass.declaring_append {number address : Nat} {known labels tokens : List Text} {rest : List (List Text)}
    {entries : List Program.Entry} {p : Grammar.Phrase} {words : List UInt16}
    (hplaces : Places final address known labels) (hspelt : p.Spelt evaluate tokens)
    (hwords : p.words? final (fun label => decide (label ∈ known ++ labels)) = some words)
    (hfits : address + words.length ≤ memorySize)
    (hrest : OnePass evaluate final (number + 1) (address + words.length) (known ++ labels) rest entries) :
    OnePass evaluate final number address known ((declaring labels ++ tokens) :: rest)
      (⟨number, address, tokens, words⟩ :: entries) := by
  obtain ⟨hlabels, hstatement⟩ := parts_declaring_append hspelt labels
  have hlabelled : Places final address known (lineLabels (declaring labels ++ tokens)) := by rwa [hlabels]
  have hspelt' : p.Spelt evaluate (lineStatement (declaring labels ++ tokens)) := by rwa [hstatement]
  have hall : OnePass evaluate final number address known _ _ :=
    .statement hlabelled hspelt' (by rwa [hlabels]) hfits (by rwa [hlabels])
  rwa [hstatement] at hall

/-- What a changed line must do: declare its labels at the same address, and restate its operands. -/
structure Mirrors (evaluate : Evaluator) (final final' : Symbols)
    (known known' row row' : List Text) : Prop where
  places : ∀ {address : Nat}, Places final address known (lineLabels row) →
    Places final' address known' (lineLabels row')
  none : lineStatement row = [] → lineStatement row' = []
  restated : ∀ {mnemonic : Text} {operands : List Text}, lineStatement row = mnemonic :: operands →
    ∃ operands', lineStatement row' = mnemonic :: operands' ∧
      Grammar.Restated (Grammar.Agrees evaluate final final'
        (fun label => decide (label ∈ known ++ lineLabels row))
        (fun label => decide (label ∈ known' ++ lineLabels row')))
        (Grammar.isData (mnemonic :: operands)) operands operands'

theorem Mirrors.words {known known' row row' : List Text}
    (h : Mirrors evaluate final final' known known' row row') {p : Grammar.Phrase} {words : List UInt16}
    (hspelt : p.Spelt evaluate (lineStatement row))
    (hwords : p.words? final (fun label => decide (label ∈ known ++ lineLabels row)) = some words) :
    ∃ p' : Grammar.Phrase, p'.Spelt evaluate (lineStatement row') ∧
      p'.words? final' (fun label => decide (label ∈ known' ++ lineLabels row')) = some words := by
  cases hrow : lineStatement row with
  | nil =>
    rw [hrow] at hspelt
    cases hspelt
  | cons mnemonic operands =>
    obtain ⟨operands', hrow', hrestated⟩ := h.restated hrow
    rw [hrow] at hspelt
    rw [hrow']
    exact hrestated.phrase hspelt hwords

theorem mirrors_editRow {known known' row : List Text} {g : Text → Text} {r : Text → List Text → List Text}
    (hplaces : ∀ {address : Nat}, Places final address known (lineLabels row) →
      Places final' address known' ((lineLabels row).map g))
    (hrestated : ∀ mnemonic operands, Grammar.Restated (Grammar.Agrees evaluate final final'
      (fun label => decide (label ∈ known ++ lineLabels row))
      (fun label => decide (label ∈ known' ++ (lineLabels row).map g)))
      (Grammar.isData (mnemonic :: operands)) operands (r mnemonic operands)) :
    Mirrors evaluate final final' known known' row (editRow g r row) where
  places := by
    intro address h
    rw [lineLabels_editRow]
    exact hplaces h
  none := by
    intro hnone
    rw [lineStatement_editRow, hnone]
    rfl
  restated := by
    intro mnemonic operands hrow
    rw [lineLabels_editRow, lineStatement_editRow, hrow]
    cases operands with
    | nil => exact ⟨[], rfl, .nil _⟩
    | cons next rest => exact ⟨r mnemonic (next :: rest), rfl, hrestated mnemonic (next :: rest)⟩

theorem mapIdx_add_cons (edit : Nat → List Text → List Text) (number : Nat) (row : List Text)
    (rest : List (List Text)) : (row :: rest).mapIdx (fun i row => edit (number + i) row) =
      edit number row :: rest.mapIdx fun i row => edit (number + 1 + i) row := by
  rw [List.mapIdx_cons]
  simp only [Nat.add_zero, Nat.add_right_comm number 1, Nat.add_assoc]

/-- If what links two passes is kept by every line, the second pass follows the first one. -/
theorem OnePass.mirror (Linked : Nat → List Text → List Text → List (List Text) → Prop)
    (edit change : Nat → List Text → List Text) (shift : Nat)
    (hchange : ∀ number row, lineStatement (edit number row) = change number (lineStatement row))
    (hstep : ∀ {number : Nat} {known known' row : List Text} {rest : List (List Text)},
      Linked number known known' (row :: rest) → (∀ label ∈ lineLabels row, label ∈ final) →
        Mirrors evaluate final final' known known' row (edit number row) ∧
          Linked (number + 1) (known ++ lineLabels row) (known' ++ lineLabels (edit number row)) rest)
    {number address : Nat} {known known' : List Text} {rows : List (List Text)}
    {entries : List Program.Entry} (h : OnePass evaluate final number address known rows entries)
    (hlinked : Linked number known known' rows) :
    OnePass evaluate final' (number + shift) address known' (rows.mapIdx fun i row => edit (number + i) row)
      (entries.map fun e => ⟨e.line + shift, e.address, change e.line.toNat e.tokens, e.words⟩) := by
  induction h generalizing known' with
  | nil number address known => exact .nil (number + shift) address known'
  | @labels number address known row rest entries hplaces hnone hrest ih =>
    obtain ⟨hrow, hnext⟩ := hstep hlinked fun label => hplaces.mem
    have hpass := ih hnext
    rw [Nat.add_right_comm] at hpass
    rw [mapIdx_add_cons]
    exact .labels (hrow.places hplaces) (hrow.none hnone) hpass
  | @statement number address known row rest entries p words hplaces hspelt hwords hfits hrest ih =>
    obtain ⟨hrow, hnext⟩ := hstep hlinked fun label => hplaces.mem
    obtain ⟨p', hspelt', hwords'⟩ := hrow.words hspelt hwords
    have hpass := ih hnext
    rw [Nat.add_right_comm] at hpass
    have hall := OnePass.statement (hrow.places hplaces) hspelt' hwords' hfits hpass
    rw [hchange, Int.natCast_add] at hall
    rw [mapIdx_add_cons]
    exact hall

theorem OnePass.mem_of_mem {number address : Nat} {known row : List Text} {rows : List (List Text)}
    {entries : List Program.Entry} (h : OnePass evaluate final number address known rows entries)
    (hrow : row ∈ rows) : (∀ label ∈ lineLabels row, isLabel label = true ∧ label ∈ final) ∧
      ∀ token ∈ (lineStatement row).tail, Grammar.isReference token = true → token ∈ final := by
  induction h with
  | nil => simp at hrow
  | labels hplaces hnone hrest ih =>
    rcases List.mem_cons.1 hrow with rfl | hrow
    · exact ⟨fun label hlabel => ⟨(hplaces.valid label hlabel).1, hplaces.mem hlabel⟩, by simp [hnone]⟩
    · exact ih hrow
  | statement hplaces hspelt hwords hfits hrest ih =>
    rcases List.mem_cons.1 hrow with rfl | hrow
    · refine ⟨fun label hlabel => ⟨(hplaces.valid label hlabel).1, hplaces.mem hlabel⟩, ?_⟩
      intro token htoken hreference
      apply Grammar.Phrase.mem_of_words? hwords
      rw [hspelt.labels_eq]
      exact List.mem_filter.2 ⟨htoken, hreference⟩
    · exact ih hrow

theorem plain_of_isLabel {token : Text} (h : isLabel token = true) : Token.Plain token := by
  have hplain : ∀ b : UInt8, (isLabelStart b || Text.isDigit b) = true → Token.isPlain b = true :=
    Text.forall_byte (by decide +kernel)
  cases token with
  | nil => exact absurd h Bool.false_ne_true
  | cons b rest =>
    obtain ⟨hstart, hrest⟩ := Bool.and_eq_true_iff.1 h
    refine ⟨List.cons_ne_nil b rest, ?_⟩
    rw [List.all_cons, hplain b (by rw [hstart, Bool.true_or]), Bool.true_and, List.all_eq_true]
    intro c hc
    exact hplain c (List.all_eq_true.1 hrest c hc)

theorem isPlain_upperByte (b : UInt8) : Token.isPlain (Text.upperByte b) = Token.isPlain b := by
  revert b
  exact Text.forall_byte (by decide +kernel)

theorem plain_of_upper {token : Text} (hne : Text.upper token ≠ [])
    (h : (Text.upper token).all Token.isPlain = true) : Token.Plain token where
  ne_nil := by
    rintro rfl
    exact hne rfl
  plain := by
    have hother : ∀ b : UInt8, 0x80 ≤ b → Token.isPlain b = true := Text.forall_byte (by decide +kernel)
    rw [List.all_eq_true]
    intro b hb
    by_cases hascii : b < 0x80
    · rw [← isPlain_upperByte]
      exact List.all_eq_true.1 h _ (Text.upperByte_mem_upper hascii hb)
    · exact hother b (UInt8.not_lt.1 hascii)

theorem plain_of_upper_mem {names : List Text} {token : Text} (h : Text.upper token ∈ names)
    (hnames : names.all (fun name => name.all Token.isPlain && name != []) = true) : Token.Plain token := by
  obtain ⟨hplain, hne⟩ := Bool.and_eq_true_iff.1 (List.all_eq_true.1 hnames _ h)
  exact plain_of_upper (by simpa using hne) hplain

theorem plain_of_isReserved {token : Text} (h : isReserved token = true) : Token.Plain token :=
  plain_of_upper_mem (List.mem_append.2 ((isReserved_iff token).1 h)) (by decide)

theorem plain_mnemonic {mnemonic : Text} {operands : List Text} {p : Grammar.Phrase}
    (h : p.Spelt evaluate (mnemonic :: operands)) : Token.Plain mnemonic := by
  cases h with
  | data hm _ _ => exact plain_of_upper_mem (List.mem_singleton.2 hm) (by decide)
  | nonBasic hm _ =>
    have hname := (NonBasicOp.ofName?_eq_some_iff.1 hm).1
    exact plain_of_upper_mem (List.mem_singleton.2 hname) (by decide)
  | basic hm _ _ =>
    have hname := (BasicOp.isSome_ofName? mnemonic).1 (by rw [hm]; rfl)
    exact plain_of_upper_mem hname (by decide)

theorem keeps_of_restated {Stands : Bool → Text → Text → Prop} {own : Bool} {tokens tokens' : List Text}
    (h : Grammar.Restated Stands own tokens tokens')
    (hplain : ∀ own label token, label ∈ tokens → Grammar.isReference label = true → Stands own label token →
      Token.Plain token) : List.Forall₂ Token.Keeps tokens tokens' := by
  induction h with
  | nil => exact .nil
  | other _ _ ih =>
    exact .cons (.inl rfl) (ih fun own label token hmem => hplain own label token (List.mem_cons_of_mem _ hmem))
  | label hlabel hstands _ ih =>
    have hold := plain_of_isLabel (Bool.and_eq_true_iff.1 hlabel).1
    have hnew := hplain _ _ _ List.mem_cons_self hlabel hstands
    exact .cons (.inr ⟨hold, hnew⟩)
      (ih fun own label token hmem => hplain own label token (List.mem_cons_of_mem _ hmem))

theorem keeps_editRow {g : Text → Text} {r : Text → List Text → List Text} {row : List Text}
    (hlabels : ∀ label ∈ lineLabels row, Token.Keeps label (g label))
    (hoperands : ∀ mnemonic operands, lineStatement row = mnemonic :: operands →
      List.Forall₂ Token.Keeps operands (r mnemonic operands)) :
    List.Forall₂ Token.Keeps row (editRow g r row) := by
  have hdeclaring : List.Forall₂ Token.Keeps (declaring (lineLabels row)) (declaring ((lineLabels row).map g)) := by
    generalize lineLabels row = labels at hlabels
    induction labels with
    | nil => exact .nil
    | cons label rest ih =>
      obtain ⟨hlabel, hrest⟩ := List.forall_mem_cons.1 hlabels
      exact .cons (.inl rfl) (.cons hlabel (ih hrest))
  have hstatement : List.Forall₂ Token.Keeps (lineStatement row) (mapOperands r (lineStatement row)) := by
    match hrow : lineStatement row with
    | [] => exact .nil
    | [mnemonic] => exact .cons (.inl rfl) .nil
    | mnemonic :: next :: rest => exact .cons (.inl rfl) (hoperands mnemonic (next :: rest) hrow)
  have happend : List.Forall₂ Token.Keeps (declaring (lineLabels row) ++ lineStatement row) (editRow g r row) :=
    List.rel_append hdeclaring hstatement
  rwa [declaring_append_lineStatement] at happend

theorem overlong_eq_false_of_parse {text : Text} {p : Program}
    (h : parse evaluate (Source.ofText text) = .ok p) : (Text.lines text).overlong = false := by
  have hstop := stop_eq_none_of_parse h
  by_contra hlong
  simp [Source.ofText, hlong] at hstop

theorem flatMap_lineLabels_mapIdx {edit : Nat → List Text → List Text} {g : Text → Text}
    (hedit : ∀ number row, lineLabels (edit number row) = (lineLabels row).map g) (number : Nat)
    (rows : List (List Text)) : (rows.mapIdx fun i row => edit (number + i) row).flatMap lineLabels =
      (rows.flatMap lineLabels).map g := by
  induction rows generalizing number with
  | nil => rfl
  | cons row rest ih =>
    rw [mapIdx_add_cons, List.flatMap_cons, List.flatMap_cons, List.map_append, hedit, ih]

/-- A source whose lines are edited one by one assembles to the same words, when every edited line mirrors
the old one and the new table has the labels of the old one under their new names. -/
theorem exists_parse_rewrite {text : Text} {p : Program} {g : Text → Text}
    {r : Nat → Text → List Text → List Text} (hparse : parse evaluate (Source.ofText text) = .ok p)
    (Linked : Nat → List Text → List Text → List (List Text) → Prop)
    (hstart : Linked 1 [] [] ((Source.ofText text).lines.map Token.ofLine))
    (hstep : ∀ {number : Nat} {known known' row : List Text} {rest : List (List Text)},
      Linked number known known' (row :: rest) → (∀ label ∈ lineLabels row, label ∈ p.symbols) →
        Mirrors evaluate p.symbols final known known' row (editRow g (r number) row) ∧
          Linked (number + 1) (known ++ lineLabels row) (known' ++ (lineLabels row).map g) rest)
    (hmem : ∀ name : Text, name ∈ final ↔ ∃ label ∈ p.symbols, g label = name)
    (hkeeps : ∀ number, ∀ row ∈ (Source.ofText text).lines.map Token.ofLine,
      List.Forall₂ Token.Keeps row (editRow g (r number) row))
    (hfits : (Text.lines (Token.rewrite (fun number => editRow g (r number)) text)).overlong = false) :
    ∃ q, parse evaluate (Source.ofText (Token.rewrite (fun number => editRow g (r number)) text)) = .ok q ∧
      (q.entries = p.entries.map fun e => { e with tokens := mapOperands (r e.line.toNat) e.tokens }) ∧
      ∀ label : Text, q.symbols[label]? = final[label]? := by
  have hassembles := assembles_of_parse hparse
  have hpass := hassembles.pass.mirror Linked (fun number => editRow g (r number))
    (fun number => mapOperands (r number)) 0 (fun number => lineStatement_editRow g (r number))
    (fun hlinked hrow => by rw [lineLabels_editRow]; exact hstep hlinked hrow) hstart
  have hlabels := flatMap_lineLabels_mapIdx (fun number => lineLabels_editRow g (r number)) 1
    ((Source.ofText text).lines.map Token.ofLine)
  simp only [Nat.add_comm 1, Nat.zero_add, Int.natCast_zero, Int.add_zero] at hpass hlabels
  have hrows : (Source.ofText (Token.rewrite (fun number => editRow g (r number)) text)).lines.map Token.ofLine =
      ((Source.ofText text).lines.map Token.ofLine).mapIdx fun i row => editRow g (r (i + 1)) row :=
    Token.map_ofLine_rewrite (overlong_eq_false_of_parse hparse) hfits
      fun i row hrow => hkeeps (i + 1) row (List.mem_of_getElem? hrow)
  -- A table that the pass over the new lines agrees with is the one the assembler finds.
  apply exists_parse_of_assembles
  · simp [Source.ofText, hfits]
  · rw [hrows]
    refine ⟨hpass, fun name => ?_⟩
    rw [hlabels, hmem, List.mem_map]
    simp only [hassembles.mem_iff]

end
end Asm16.Assembly

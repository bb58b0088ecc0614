import Asm16.Proofs.Rewriting

/-! Letters in either case. Mnemonics and the names of registers and special operands are compared in upper
case, labels byte by byte. In a source that assembles any letters of these names can be changed to the other
case where they stand, and the source assembles to the same words and addresses. -/

namespace Asm16

/-! ### The letters of a word -/

namespace Text

def swapCase (b : UInt8) : UInt8 := if isAsciiLetter b then b ^^^ 0x20 else b

def recase (chosen : Nat → Bool) (w : Text) : Text := w.mapIdx fun i b => if chosen i then swapCase b else b

theorem upperByte_swapCase (b : UInt8) : upperByte (swapCase b) = upperByte b := by
  revert b
  exact forall_byte (by decide +kernel)

theorem map_upperByte_recase (chosen : Nat → Bool) (w : Text) :
    (recase chosen w).map upperByte = w.map upperByte := by
  have hbyte : ∀ i b, upperByte (if chosen i then swapCase b else b) = upperByte b := by
    intro i b
    split
    · exact upperByte_swapCase b
    · rfl
  apply List.ext_getElem?
  intro i
  simp [recase, Function.comp_def, hbyte]

theorem length_recase (chosen : Nat → Bool) (w : Text) : (recase chosen w).length = w.length := List.length_mapIdx

@[simp]
theorem upper_recase (chosen : Nat → Bool) (w : Text) : upper (recase chosen w) = upper w := by
  rw [← upper_map_upperByte, map_upperByte_recase, upper_map_upperByte]

end Text

theorem Token.Plain.recase {w : Text} (h : Plain w) (chosen : Nat → Bool) : Plain (Text.recase chosen w) where
  ne_nil := List.ne_nil_of_length_pos (by rw [Text.length_recase]; exact List.length_pos_iff.2 h.ne_nil)
  plain := by
    have hletters := congrArg (List.all · isPlain) (Text.map_upperByte_recase chosen w)
    simp only [List.all_map, Function.comp_def, Assembly.isPlain_upperByte] at hletters
    exact hletters.trans h.plain

/-! ### Names in statements -/

namespace Grammar
open Assembly

/-- A change of tokens, given their places, that keeps the upper case of names and leaves other tokens alone. -/
structure Respells (f : Nat → Text → Text) : Prop where
  upper : ∀ i token, Text.upper (f i token) = Text.upper token
  other : ∀ i token, isReserved token = false → f i token = token

namespace Respells

variable {f : Nat → Text → Text}

theorem shift (h : Respells f) (n : Nat) : Respells fun i => f (i + n) :=
  ⟨fun i => h.upper (i + n), fun i => h.other (i + n)⟩

theorem register (h : Respells f) (i : Nat) {token : Text} {reg : Register}
    (hreg : Register.ofName? token = some reg) : Register.ofName? (f i token) = some reg := by
  rw [← hreg, Register.ofName?, h.upper]
  rfl

theorem special (h : Respells f) (i : Nat) {token : Text} {sp : Special}
    (hsp : Special.ofName? token = some sp) : Special.ofName? (f i token) = some sp := by
  rw [← hsp, Special.ofName?, h.upper]
  rfl

theorem isReserved_eq (h : Respells f) (i : Nat) (token : Text) : isReserved (f i token) = isReserved token := by
  rw [isReserved, Register.ofName?, Special.ofName?, h.upper]
  rfl

theorem filter_isReference (h : Respells f) (tokens : List Text) :
    (tokens.mapIdx f).filter isReference = tokens.filter isReference := by
  induction tokens generalizing f with
  | nil => rfl
  | cons token rest ih =>
    rw [List.mapIdx_cons, List.filter_cons, List.filter_cons, ih (h.shift 1)]
    cases hreserved : isReserved token with
    | false => rw [h.other 0 token hreserved]
    | true =>
      have hnew := (h.isReserved_eq 0 token).trans hreserved
      rw [isReference_of_isReserved hreserved, isReference_of_isReserved hnew]
      rfl

theorem mapIdx_eq_self (h : Respells f) {tokens : List Text} (hother : ∀ token ∈ tokens, isReserved token = false) :
    tokens.mapIdx f = tokens := by
  induction tokens generalizing f with
  | nil => rfl
  | cons token rest ih =>
    obtain ⟨htoken, hrest⟩ := List.forall_mem_cons.1 hother
    rw [List.mapIdx_cons, h.other 0 token htoken, ih (h.shift 1) hrest]

section
variable {evaluate : Evaluator}

theorem isReserved_of_speltFreely {tokens : List Text} {a : Atom} (h : a.SpeltFreely evaluate tokens) :
    ∀ token ∈ tokens, isReserved token = false := by
  cases h with
  | atom ha => exact List.forall_mem_singleton.2 ha.isReserved
  | negative hword =>
    have hminus : isReserved minusToken = false := by decide
    exact List.forall_mem_cons.2 ⟨hminus, List.forall_mem_singleton.2 (isReserved_of_numberWord hword)⟩

theorem term (h : Respells f) {tokens : List Text} {t : Term} (ht : t.Spelt evaluate tokens) :
    t.Spelt evaluate (tokens.mapIdx f) := by
  have hopen : isReserved openToken = false := by decide
  have hclose : isReserved closeToken = false := by decide
  have hplus : isReserved plusToken = false := by decide
  cases ht with
  | register hreg => exact .register (h.register 0 hreg)
  | special hsp => exact .special (h.special 0 hsp)
  | bare ha =>
    rw [h.mapIdx_eq_self (isReserved_of_speltFreely ha)]
    exact .bare ha
  | indirect hreg =>
    simp only [List.mapIdx_cons, List.mapIdx_nil, h.other _ _ hopen, h.other _ _ hclose]
    exact .indirect (h.register _ hreg)
  | memory ha =>
    simp only [List.mapIdx_cons, List.mapIdx_nil, h.other _ _ hopen, h.other _ _ hclose, h.other _ _ ha.isReserved]
    exact .memory ha
  | offsetFirst ha hreg =>
    simp only [List.mapIdx_cons, List.mapIdx_nil, h.other _ _ hopen, h.other _ _ hclose, h.other _ _ hplus,
      h.other _ _ ha.isReserved]
    exact .offsetFirst ha (h.register _ hreg)
  | registerFirst ha hreg =>
    simp only [List.mapIdx_cons, List.mapIdx_nil, h.other _ _ hopen, h.other _ _ hclose, h.other _ _ hplus,
      h.other _ _ ha.isReserved]
    exact .registerFirst ha (h.register _ hreg)

theorem phrase (h : Respells f) {mnemonic name : Text} {operands : List Text} {p : Phrase}
    (hname : Text.upper name = Text.upper mnemonic) (hp : p.Spelt evaluate (mnemonic :: operands)) :
    p.Spelt evaluate (name :: operands.mapIdx f) := by
  have hcomma : isReserved commaToken = false := by decide
  cases hp with
  | data hm hne hvalues =>
    rw [h.mapIdx_eq_self (forall_mem_intercalate hvalues hcomma isReserved_of_speltFreely)]
    exact .data (hname.trans hm) hne hvalues
  | nonBasic hm ha =>
    refine .nonBasic ?_ (h.term ha)
    rw [← hm, NonBasicOp.ofName?, hname]
    rfl
  | @basic _ left right _ _ _ hm ha hb =>
    rw [List.mapIdx_append, List.mapIdx_cons, h.other _ _ hcomma]
    refine .basic ?_ (h.term ha) ?_
    · rw [← hm, BasicOp.ofName?, hname]
      rfl
    · exact ((h.shift left.length).shift 1).term hb

end
end Respells
end Grammar

/-! ### Lines of the same length -/

namespace Token

theorem length_substitute_token {old new : Text} (hold : ∃ b rest, old = b :: rest ∧ isBlank b = false)
    (hnew : new.length = old.length) {pairs : List (Text × Text)} {t : Text}
    (h : (substitute pairs t).length = t.length) :
    (substitute ((old, new) :: pairs) (old ++ t)).length = (old ++ t).length := by
  obtain ⟨b, rest, rfl, hb⟩ := hold
  simp [substitute, hb, h, hnew, Nat.add_right_comm]

theorem Lexed.length_substitute {t : Text} {tokens new : List Text} (h : Lexed t tokens)
    (hnew : List.Forall₂ (fun old new => new.length = old.length) tokens new) (after : Text) :
    (substitute (tokens.zip new) (t ++ after)).length = (t ++ after).length := by
  induction h generalizing new with
  | nil =>
    cases hnew
    rfl
  | @blank b t tokens hb _ ih =>
    rw [List.cons_append, substitute_blank hb, List.length_cons, ih hnew, List.length_cons]
  | @separator b t tokens hb _ ih =>
    cases hnew with
    | cons hfirst hrest =>
      exact length_substitute_token ⟨b, [], rfl, isBlank_of_isSeparator hb⟩ hfirst (ih hrest)
  | @expression inner t tokens hcloses _ ih =>
    cases hnew with
    | cons hfirst hrest =>
      rw [List.append_assoc]
      exact length_substitute_token ⟨dollar, openParen :: inner, rfl, by decide⟩ hfirst (ih hrest)
  | @unclosed inner hopen =>
    cases hnew with
    | cons hfirst hrest =>
      cases hrest
      exact length_substitute_token ⟨dollar, openParen :: inner, rfl, by decide⟩ hfirst rfl
  | @word w t tokens hne hrun hstops _ ih =>
    cases hnew with
    | cons hfirst hrest =>
      obtain ⟨b, rest, rfl⟩ := List.exists_cons_of_ne_nil hne
      have hblank := isBlank_eq_false_of_isRun hrun List.mem_cons_self
      rw [List.append_assoc]
      exact length_substitute_token ⟨b, rest, rfl, hblank⟩ hfirst (ih hrest)

theorem length_replace {line : Text} {new : List Text}
    (h : List.Forall₂ (fun old new => new.length = old.length) (ofLine line) new) :
    (replace new line).length = line.length := by
  have hline : Text.before Text.semicolon line ++ line.dropWhile (· != Text.semicolon) = line :=
    List.takeWhile_append_dropWhile
  have hlength := (lexed_ofLine line).length_substitute h (line.dropWhile (· != Text.semicolon))
  rwa [hline] at hlength

end Token

namespace Text

theorem length_mapBody {g : Text → Text} {piece : Text} (h : (g (chomp piece)).length = (chomp piece).length) :
    (mapBody g piece).length = piece.length := by
  unfold chomp at h
  unfold mapBody
  split
  · rename_i hlast
    obtain ⟨line, rfl⟩ := List.getLast?_eq_some_iff.1 hlast
    rw [if_pos hlast] at h
    rw [List.length_append, h, List.dropLast_concat, List.length_append]
  · rename_i hlast
    rwa [if_neg hlast] at h

end Text

theorem Token.overlong_rewrite {f : Nat → List Text → List Text} {t : Text}
    (ht : (Text.lines t).overlong = false)
    (hkeeps : ∀ i row, ((Text.lines t).lines.map ofLine)[i]? = some row → List.Forall₂ Keeps row (f (i + 1) row))
    (hlength : ∀ i row, ((Text.lines t).lines.map ofLine)[i]? = some row →
      List.Forall₂ (fun old new => new.length = old.length) row (f (i + 1) row)) :
    (Text.lines (rewrite f t)).overlong = false := by
  have hrow : ∀ {i : Nat} {line : Text}, (Text.lines t).lines[i]? = some line →
      ((Text.lines t).lines.map ofLine)[i]? = some (ofLine line) := by
    intro i line hline
    rw [List.getElem?_map, hline, Option.map_some]
  have hreplaces := Text.forall_pieces_of_lines
    (P := fun i line => Text.Replaces line (replace (f (i + 1) (ofLine line)) line)) ht
    (fun i => by rw [replace_nil]; exact .refl []) fun i line hline => (ofLine_replace (hkeeps i _ (hrow hline))).2
  have hlengths := Text.forall_pieces_of_lines
    (P := fun i line => (replace (f (i + 1) (ofLine line)) line).length = line.length) ht
    (fun i => by rw [replace_nil]) fun i line hline => length_replace (hlength i _ (hrow hline))
  have hshort : ∀ p ∈ Text.pieces (rewrite f t), p.length < Text.lineLimit := by
    rw [rewrite, Text.pieces_mapLines hreplaces]
    intro p hp
    obtain ⟨i, hi, rfl⟩ := List.mem_mapIdx.1 hp
    have hsame : (Text.mapBody (fun line => replace (f (i + 1) (ofLine line)) line) (Text.pieces t)[i]).length =
        (Text.pieces t)[i].length := Text.length_mapBody (hlengths i _ (List.getElem?_eq_getElem hi))
    rw [hsame]
    exact Text.short_of_read ht _ (List.getElem_mem hi)
  rw [Text.lines_of_short hshort]

/-! ### Sources -/

namespace Assembly

/-- A token of a statement with some letters in the other case, if it is the mnemonic, in place 0, or the name of
a register or a special operand. Any other token stays. -/
def recaseToken (chosen : Nat → Nat → Bool) (i : Nat) (token : Text) : Text :=
  if i = 0 ∨ isReserved token = true then Text.recase (chosen i) token else token

def recaseStatement (chosen : Nat → Nat → Bool) (tokens : List Text) : List Text :=
  tokens.mapIdx (recaseToken chosen)

def recaseRow (chosen : Nat → Nat → Bool) (row : List Text) : List Text :=
  declaring (lineLabels row) ++ recaseStatement chosen (lineStatement row)

/-- A text with some letters of names in the other case. The letters are chosen by the number of the line, the
place of the token in the statement and the place of the letter in the token. -/
def recase (chosen : Nat → Nat → Nat → Bool) (t : Text) : Text :=
  Token.rewrite (fun number => recaseRow (chosen number)) t

section
variable {evaluate : Evaluator} {final : Symbols}

theorem respells_recaseToken (chosen : Nat → Nat → Bool) :
    Grammar.Respells fun i => recaseToken chosen (i + 1) where
  upper := by
    intro i token
    unfold recaseToken
    split
    · exact Text.upper_recase _ token
    · rfl
  other := by
    intro i token hfree
    unfold recaseToken
    rw [if_neg]
    simp [hfree]

theorem spelt_recaseStatement (chosen : Nat → Nat → Bool) {tokens : List Text} {p : Grammar.Phrase}
    (h : p.Spelt evaluate tokens) : p.Spelt evaluate (recaseStatement chosen tokens) := by
  cases tokens with
  | nil => cases h
  | cons mnemonic operands =>
    have hname : recaseToken chosen 0 mnemonic = Text.recase (chosen 0) mnemonic := if_pos (.inl rfl)
    rw [recaseStatement, List.mapIdx_cons, hname]
    exact (respells_recaseToken chosen).phrase (Text.upper_recase _ mnemonic) h

theorem OnePass.recase (chosen : Nat → Nat → Nat → Bool) {number address : Nat} {known : List Text}
    {rows : List (List Text)} {entries : List Program.Entry}
    (h : OnePass evaluate final number address known rows entries) :
    OnePass evaluate final number address known (rows.mapIdx fun i row => recaseRow (chosen (number + i)) row)
      (entries.map fun e => { e with tokens := recaseStatement (chosen e.line.toNat) e.tokens }) := by
  induction h with
  | nil number address known => exact .nil number address known
  | @labels number address known row rest entries hplaces hnone _ ih =>
    obtain ⟨hlabels, hstatement⟩ := parts_declaring (lineLabels row)
    have hrow : recaseRow (chosen number) row = declaring (lineLabels row) := by
      rw [recaseRow, hnone]
      exact List.append_nil _
    rw [mapIdx_add_cons fun number row => recaseRow (chosen number) row, hrow]
    exact .labels (by rwa [hlabels]) hstatement (by rwa [hlabels])
  | @statement number address known row rest entries p words hplaces hspelt hwords hfits _ ih =>
    rw [mapIdx_add_cons fun number row => recaseRow (chosen number) row]
    exact .declaring_append hplaces (spelt_recaseStatement (chosen number) hspelt) hwords hfits ih

/-! ### Tokens that change and those that do not -/

theorem lineLabels_recaseRow (chosen : Nat → Nat → Bool) {row : List Text}
    (h : lineStatement row = [] ∨ ∃ p : Grammar.Phrase, p.Spelt evaluate (lineStatement row)) :
    lineLabels (recaseRow chosen row) = lineLabels row := by
  rcases h with hnone | ⟨p, hspelt⟩
  · rw [recaseRow, hnone]
    exact (lineLabels_declaring_append _ []).trans (List.append_nil _)
  · exact (parts_declaring_append (spelt_recaseStatement chosen hspelt) _).1

theorem OnePass.spelt_of_mem {number address : Nat} {known row : List Text} {rows : List (List Text)}
    {entries : List Program.Entry} (h : OnePass evaluate final number address known rows entries)
    (hrow : row ∈ rows) :
    lineStatement row = [] ∨ ∃ p : Grammar.Phrase, p.Spelt evaluate (lineStatement row) := by
  induction h with
  | nil => contradiction
  | labels _ hnone _ ih =>
    rcases List.mem_cons.1 hrow with rfl | hrow
    · exact .inl hnone
    · exact ih hrow
  | statement _ hspelt _ _ _ ih =>
    rcases List.mem_cons.1 hrow with rfl | hrow
    · exact .inr ⟨_, hspelt⟩
    · exact ih hrow

theorem length_recaseToken (chosen : Nat → Nat → Bool) (i : Nat) (token : Text) :
    (recaseToken chosen i token).length = token.length := by
  unfold recaseToken
  split
  · exact Text.length_recase _ token
  · rfl

theorem keeps_recaseToken (chosen : Nat → Nat → Bool) {i : Nat} {token : Text} (h : i = 0 → Token.Plain token) :
    Token.Keeps token (recaseToken chosen i token) := by
  unfold recaseToken
  split
  · rename_i hname
    have hplain : Token.Plain token := hname.elim h plain_of_isReserved
    exact .inr ⟨hplain, hplain.recase _⟩
  · exact .inl rfl

theorem forall₂_mapIdx {R : Text → Text → Prop} {f : Nat → Text → Text} {tokens : List Text}
    (h : ∀ i token, tokens[i]? = some token → R token (f i token)) : List.Forall₂ R tokens (tokens.mapIdx f) := by
  induction tokens generalizing f with
  | nil => exact .nil
  | cons token rest ih =>
    rw [List.mapIdx_cons]
    exact .cons (h 0 token rfl) (ih fun i token htoken => h (i + 1) token htoken)

theorem forall₂_recaseRow {R : Text → Text → Prop} (hrefl : ∀ token, R token token)
    {chosen : Nat → Nat → Bool} {row : List Text}
    (h : ∀ i token, (lineStatement row)[i]? = some token → R token (recaseToken chosen i token)) :
    List.Forall₂ R row (recaseRow chosen row) := by
  have happend : List.Forall₂ R (declaring (lineLabels row) ++ lineStatement row) (recaseRow chosen row) :=
    List.rel_append (List.forall₂_same.2 fun token _ => hrefl token) (forall₂_mapIdx h)
  rwa [declaring_append_lineStatement] at happend

theorem length_recaseRow (chosen : Nat → Nat → Bool) (row : List Text) :
    List.Forall₂ (fun old new => new.length = old.length) row (recaseRow chosen row) :=
  forall₂_recaseRow (R := fun old new => new.length = old.length) (fun _ => rfl)
    fun i token _ => length_recaseToken chosen i token

theorem keeps_recaseRow (chosen : Nat → Nat → Bool) {row : List Text}
    (h : lineStatement row = [] ∨ ∃ p : Grammar.Phrase, p.Spelt evaluate (lineStatement row)) :
    List.Forall₂ Token.Keeps row (recaseRow chosen row) := by
  apply forall₂_recaseRow fun _ => .inl rfl
  intro i token htoken
  apply keeps_recaseToken
  rintro rfl
  rcases h with hnone | ⟨p, hspelt⟩
  · rw [hnone] at htoken
    contradiction
  · obtain ⟨operands, hstatement⟩ := List.head?_eq_some_iff.1 (List.head?_eq_getElem?.trans htoken)
    rw [hstatement] at hspelt
    exact plain_mnemonic hspelt

theorem map_lineLabels_recase (chosen : Nat → Nat → Nat → Bool) {rows : List (List Text)}
    (h : ∀ row ∈ rows, lineStatement row = [] ∨ ∃ p : Grammar.Phrase, p.Spelt evaluate (lineStatement row)) :
    (rows.mapIdx fun i row => recaseRow (chosen (i + 1)) row).map lineLabels = rows.map lineLabels := by
  apply List.ext_getElem?
  intro i
  rw [List.getElem?_map, List.getElem?_mapIdx, List.getElem?_map]
  cases hrow : rows[i]? with
  | none => rfl
  | some row => exact congrArg some (lineLabels_recaseRow _ (h row (List.mem_of_getElem? hrow)))

theorem lines_recase {text : Text} {p : Program} (hparse : parse evaluate (Source.ofText text) = .ok p)
    (chosen : Nat → Nat → Nat → Bool) :
    (Text.lines (recase chosen text)).overlong = false ∧
      (Source.ofText (recase chosen text)).lines.map Token.ofLine =
        ((Source.ofText text).lines.map Token.ofLine).mapIdx fun i row => recaseRow (chosen (i + 1)) row := by
  have hread := overlong_eq_false_of_parse hparse
  have hkeeps : ∀ i row, ((Text.lines text).lines.map Token.ofLine)[i]? = some row →
      List.Forall₂ Token.Keeps row (recaseRow (chosen (i + 1)) row) := by
    intro i row hrow
    exact keeps_recaseRow _ ((assembles_of_parse hparse).pass.spelt_of_mem (List.mem_of_getElem? hrow))
  have hfits : (Text.lines (recase chosen text)).overlong = false :=
    Token.overlong_rewrite hread hkeeps fun i row _ => length_recaseRow (chosen (i + 1)) row
  exact ⟨hfits, Token.map_ofLine_rewrite hread hfits hkeeps⟩

theorem filter_isReference_recaseStatement (chosen : Nat → Nat → Bool) (tokens : List Text) :
    (recaseStatement chosen tokens).tail.filter Grammar.isReference = tokens.tail.filter Grammar.isReference := by
  cases tokens with
  | nil => rfl
  | cons mnemonic operands =>
    rw [recaseStatement, List.mapIdx_cons]
    exact (respells_recaseToken chosen).filter_isReference operands

end

/-- Letters of mnemonics, registers and special operands may be in either case. Changing them changes neither
the labels that a line declares nor those that a statement refers to, which are compared byte by byte. -/
theorem parse_recase {evaluate : Evaluator} {text : Text} {p : Program}
    (hparse : parse evaluate (Source.ofText text) = .ok p) (chosen : Nat → Nat → Nat → Bool) :
    ∃ q, parse evaluate (Source.ofText (recase chosen text)) = .ok q ∧ q.words = p.words ∧
      (∀ label : Text, q.symbols[label]? = p.symbols[label]?) ∧
      (q.entries = p.entries.map fun e => { e with tokens := recaseStatement (chosen e.line.toNat) e.tokens }) ∧
      (q.entries.map fun e => e.tokens.tail.filter Grammar.isReference) =
        (p.entries.map fun e => e.tokens.tail.filter Grammar.isReference) ∧
      ((Source.ofText (recase chosen text)).lines.map fun line => lineLabels (Token.ofLine line)) =
        ((Source.ofText text).lines.map fun line => lineLabels (Token.ofLine line)) ∧
      ∀ label : Text, label ∈ q.symbols ↔
        ∃ line ∈ (Source.ofText text).lines, label ∈ lineLabels (Token.ofLine line) := by
  have hassembles := assembles_of_parse hparse
  obtain ⟨hfits, hrows⟩ := lines_recase hparse chosen
  have hpass := hassembles.pass.recase chosen
  simp only [Nat.add_comm 1] at hpass
  have hlabels := map_lineLabels_recase chosen fun row hrow => hassembles.pass.spelt_of_mem hrow
  rw [← hrows] at hpass hlabels
  -- The single pass over the new lines agrees with the old table, which is therefore the new one too.
  have hnew : Assembles evaluate ((Source.ofText (recase chosen text)).lines.map Token.ofLine) p.symbols
      (p.entries.map fun e => { e with tokens := recaseStatement (chosen e.line.toNat) e.tokens }) := by
    refine ⟨hpass, fun label => ?_⟩
    rw [hassembles.mem_iff, List.flatMap_def, List.flatMap_def, hlabels]
  obtain ⟨q, hq, hentries, hsymbols⟩ := exists_parse_of_assembles (by simp [Source.ofText, hfits]) hnew
  refine ⟨q, hq, ?_, hsymbols, hentries, ?_, ?_, fun label => ?_⟩
  · rw [Program.words, Program.words, hentries, List.flatMap_map]
  · rw [hentries, List.map_map]
    exact List.map_congr_left fun e _ => filter_isReference_recaseStatement _ e.tokens
  · rwa [List.map_map, List.map_map] at hlabels
  · rw [mem_symbols_iff, hsymbols, ← mem_symbols_iff, hassembles.mem_iff, List.flatMap_map, List.mem_flatMap]

def mixedText : Text := ascii ":Loop sub a,[B+loop] ; sub a\n:loop ife Pc, SET\n:SET dat Loop, loop\n\tjsr SET"

theorem parse_recase_mixed :
    ∃ p q, parse Constant.closed (Source.ofText mixedText) = .ok p ∧
      recase (fun number place i => i < number + place) mixedText =
        ascii ":Loop Sub A,[b+loop] ; sub a\n:loop IFe pC, SET\n:SET DAT Loop, loop\n\tJSR SET" ∧
      parse Constant.closed (Source.ofText (recase (fun number place i => i < number + place) mixedText)) = .ok q ∧
      q.words = [0x4403, 2, 0x7dcc, 4, 0, 2, 0x9010] ∧ q.symbols[ascii "Loop"]? = some 0 ∧
      q.symbols[ascii "loop"]? = some 2 ∧ q.symbols[ascii "SET"]? = some 4 := by
  have hparse : (parse Constant.closed (Source.ofText mixedText)).map (fun p => (p.words, p.symbols.toList)) =
      .ok ([0x4403, 2, 0x7dcc, 4, 0, 2, 0x9010], [(ascii "Loop", 0), (ascii "SET", 4), (ascii "loop", 2)]) := by
    decide +kernel
  have htext : recase (fun number place i => i < number + place) mixedText =
      ascii ":Loop Sub A,[b+loop] ; sub a\n:loop IFe pC, SET\n:SET DAT Loop, loop\n\tJSR SET" := by decide +kernel
  obtain ⟨p, hp, hvalues⟩ := map_eq_ok_iff.1 hparse
  obtain ⟨hwords, hlist⟩ := Prod.mk.inj hvalues
  obtain ⟨q, hq, hsame, hsymbols, -⟩ := parse_recase hp fun number place i => i < number + place
  have hlookup : ∀ label address, (label, address) ∈ p.symbols.toList → q.symbols[label]? = some address := by
    intro label address hlabel
    rw [hsymbols]
    exact Std.TreeMap.mem_toList_iff_getElem?_eq_some.1 hlabel
  rw [← hlist] at hlookup
  exact ⟨p, q, hp, htext, hq, hsame.trans hwords.symm, hlookup _ _ (by simp), hlookup _ _ (by simp),
    hlookup _ _ (by simp)⟩

end Assembly
end Asm16

import Asm16.Proofs.HexDump
import Asm16.Proofs.LetterCase
import Asm16.Proofs.Positional

/-! The letters that a source is written with. Labels and numerals are ASCII. Names of instructions, registers and
special operands are compared in upper case, and two letters outside ASCII have an upper case within it: the long s
and the dotless i. A source that assembles has no byte outside ASCII, expressions apart, but in names that are
written with one of these two letters. -/

namespace Asm16

namespace Text

def longS : Text := [0xc5, 0xbf]
def dotlessI : Text := [0xc4, 0xb1]

/-- A text with S for each long s and I for each dotless i. -/
def latin : Text → Text
  | 0xc5 :: 0xbf :: rest => 'S'.toUInt8 :: latin rest
  | 0xc4 :: 0xb1 :: rest => 'I'.toUInt8 :: latin rest
  | b :: rest => b :: latin rest
  | [] => []

def CodePoint.latin (c : CodePoint) : Text :=
  if c.scalar = 0x17f then ascii "S" else if c.scalar = 0x131 then ascii "I" else c.bytes

theorem CodePoint.latin_of_ne {c : CodePoint} (hs : c.scalar ≠ 0x17f) (hi : c.scalar ≠ 0x131) :
    c.latin = c.bytes := by
  rw [latin, if_neg hs, if_neg hi]

theorem latin_cons {b : UInt8} (hs : b ≠ 0xc5) (hi : b ≠ 0xc4) (rest : Text) :
    latin (b :: rest) = b :: latin rest :=
  latin.eq_3 _ _ (fun _ h _ => hs h) fun _ h _ => hi h

theorem latin_tails {tails : Text} (h : tails.all CodePoint.isTail = true) (rest : Text) :
    latin (tails ++ rest) = tails ++ latin rest := by
  induction tails with
  | nil => rfl
  | cons b tails ih =>
    obtain ⟨hb, htails⟩ := Bool.and_eq_true_iff.1 h
    have hother : ∀ b : UInt8, CodePoint.isTail b = true → b ≠ 0xc5 ∧ b ≠ 0xc4 :=
      forall_byte (by decide +kernel)
    rw [List.cons_append, latin_cons (hother b hb).1 (hother b hb).2, ih htails, List.cons_append]

theorem CodePoint.pair_eq_iff {lead b : UInt8} (hlow : 0xc2 ≤ lead) (hhigh : lead ≤ 0xdf) (hb : isTail b = true)
    (first second : UInt8) (hfirst : 0xc0 ≤ first ∧ first ≤ 0xdf) (hsecond : isTail second = true) :
    lead.toNat % 32 * 64 + low6 b = first.toNat % 32 * 64 + low6 second ↔ lead = first ∧ b = second := by
  rw [isTail_iff] at hb hsecond
  rw [UInt8.le_iff_toNat_le] at hlow hhigh
  rw [UInt8.le_iff_toNat_le, UInt8.le_iff_toNat_le] at hfirst
  rw [← UInt8.toNat_inj, ← UInt8.toNat_inj]
  simp only [low6, UInt8.reduceToNat] at *
  omega

theorem latin_of_leads {lead : UInt8} {rest after : Text} {c : CodePoint} (h : CodePoint.Leads lead rest c after) :
    latin (lead :: rest) = c.latin ++ latin after := by
  cases h with
  | ascii hlead =>
    have hother : ∀ b : UInt8, b < 0x80 → b ≠ 0xc5 ∧ b ≠ 0xc4 ∧ (CodePoint.ofAscii b).latin = [b] :=
      forall_byte (by decide +kernel)
    obtain ⟨hs, hi, hlatin⟩ := hother lead hlead
    rw [latin_cons hs hi, hlatin, List.singleton_append]
  | stray hlead halone =>
    have hnone : ∀ {first second : UInt8} (rest' : Text), CodePoint.isTail second = true → 0xc2 ≤ first →
        first ≤ 0xdf → lead = first → rest = second :: rest' → False := by
      rintro first second rest' hsecond hlow hhigh rfl rfl
      exact Bool.false_ne_true ((halone hlow hhigh).symm.trans hsecond)
    rw [latin.eq_3 _ _ (fun rest' => hnone rest' (by decide) (by decide) (by decide))
      fun rest' => hnone rest' (by decide) (by decide) (by decide)]
    rfl
  | @pair b _ hlow hhigh hb =>
    have hpair := CodePoint.pair_eq_iff hlow hhigh hb
    by_cases hlong : lead = 0xc5 ∧ b = 0xbf
    · obtain ⟨rfl, rfl⟩ := hlong
      rfl
    by_cases hdotless : lead = 0xc4 ∧ b = 0xb1
    · obtain ⟨rfl, rfl⟩ := hdotless
      rfl
    have hs : lead.toNat % 32 * 64 + CodePoint.low6 b ≠ 0x17f := mt (hpair 0xc5 0xbf (by decide) (by decide)).1 hlong
    have hi : lead.toNat % 32 * 64 + CodePoint.low6 b ≠ 0x131 :=
      mt (hpair 0xc4 0xb1 (by decide) (by decide)).1 hdotless
    have htail : [b].all CodePoint.isTail = true := by simp [hb]
    have hrest : latin (b :: after) = b :: latin after := latin_tails htail after
    have hlatin : (CodePoint.mk [lead, b] (some (lead.toNat % 32 * 64 + CodePoint.low6 b))).latin = [lead, b] :=
      CodePoint.latin_of_ne hs hi
    rw [hlatin, latin.eq_3, hrest]
    · rfl
    · intro rest' hlead heq
      exact hlong ⟨hlead, (List.cons.inj heq).1⟩
    · intro rest' hlead heq
      exact hdotless ⟨hlead, (List.cons.inj heq).1⟩
  | @long tails _ n hlead htails hn =>
    -- What takes more than two bytes is past both letters, and no byte of it starts one of them.
    have hother : ∀ b : UInt8, 0xe0 ≤ b → b ≠ 0xc5 ∧ b ≠ 0xc4 := forall_byte (by decide +kernel)
    have hscalar : (CodePoint.mk (lead :: tails) (some n)).scalar = n := rfl
    rw [latin_cons (hother lead hlead).1 (hother lead hlead).2, latin_tails htails,
      CodePoint.latin_of_ne (by omega) (by omega), List.cons_append]

/-- A unit outside ASCII has letters of ASCII for it only if it is one of the two. -/
theorem CodePoint.upper_eq_map_latin_of_le {c : CodePoint} (hscalar : 0x80 ≤ c.scalar)
    (hbytes : isAscii c.bytes = false)
    (hascii : isAscii c.upper = true ∨ isAscii c.latin = true) : c.upper = c.latin.map upperByte := by
  have hupper : c.upper = utf8 (capital c.scalar) := if_neg (Nat.not_lt.2 hscalar)
  by_cases hs : c.scalar = 0x17f
  · rw [hupper, latin, if_pos hs, hs, capital_longS]
    rfl
  by_cases hi : c.scalar = 0x131
  · rw [hupper, latin, if_neg hs, if_pos hi, hi, capital_dotlessI]
    rfl
  rw [hupper, isAscii_utf8 (capital_of_ne hscalar hs hi), latin_of_ne hs hi, hbytes] at hascii
  simp at hascii

theorem CodePoint.upper_eq_map_latin {lead : UInt8} {rest after : Text} {c : CodePoint} (h : Leads lead rest c after)
    (hascii : isAscii c.upper = true ∨ isAscii c.latin = true) : c.upper = c.latin.map upperByte := by
  cases h with
  | ascii hlead =>
    have hlatin : ∀ b : UInt8, b < 0x80 → (ofAscii b).latin = [b] := forall_byte (by decide +kernel)
    rw [upper_ofAscii hlead, hlatin lead hlead, List.map_singleton]
  | stray hlead _ =>
    exact upper_eq_map_latin_of_le (show 0x80 ≤ 0xfffd by decide) (isAscii_cons_of_le hlead []) hascii
  | @pair b _ hlow hhigh _ =>
    refine upper_eq_map_latin_of_le ?_ (isAscii_cons_of_le (UInt8.le_trans (by decide) hlow) [b]) hascii
    change 0x80 ≤ lead.toNat % 32 * 64 + low6 b
    rw [UInt8.le_iff_toNat_le] at hlow hhigh
    simp only [UInt8.reduceToNat] at hlow hhigh
    omega
  | @long tails _ n hlead _ hn =>
    refine upper_eq_map_latin_of_le ?_ (isAscii_cons_of_le (UInt8.le_trans (by decide) hlead) tails) hascii
    change 0x80 ≤ n
    omega

/-- The upper case of a text is the upper case of its ASCII letters, those two apart, if there are no others. -/
theorem upper_eq_map_latin {t : Text} (h : isAscii (upper t) = true ∨ isAscii (latin t) = true) :
    upper t = (latin t).map upperByte := by
  induction t using units_induction with
  | nil => rfl
  | cons lead rest ih =>
    have hleads := CodePoint.leads_next lead rest
    rw [upper_next, latin_of_leads hleads] at h
    rw [upper_next, latin_of_leads hleads, List.map_append]
    rw [isAscii_append, isAscii_append] at h
    rw [CodePoint.upper_eq_map_latin hleads (h.imp And.left And.left), ih (h.imp And.right And.right)]

theorem latin_of_isAscii {t : Text} (h : isAscii t = true) : latin t = t := by
  fun_induction latin t with
  | case1 rest ih | case2 rest ih => simp [isAscii] at h
  | case3 b rest hs hi ih =>
    obtain ⟨-, hrest⟩ := Bool.and_eq_true_iff.1 h
    rw [ih hrest]
  | case4 => rfl

theorem upper_latin {t : Text} (h : isAscii (latin t) = true) : upper (latin t) = upper t := by
  rw [upper_of_isAscii h, upper_eq_map_latin (.inr h)]

end Text

namespace Numeral

theorem Denotes.isAscii {w : Text} {n : Nat} (h : Denotes w n) : Text.isAscii w = true := by
  obtain ⟨base, t, hform, hdigits⟩ := h
  have hdigit : ∀ b : UInt8, (Text.digitValue? b).isSome = true → b < 0x80 := Text.forall_byte (by decide +kernel)
  have hsmall : ∀ b ∈ t, b < 0x80 := by
    intro b hb
    obtain ⟨d, hd, hspelt⟩ := hdigits.exists_of_mem hb
    have hvalue := Text.digitValue?_eq_some_iff.2 ⟨hd.trans_le (base_le_of_form hform), hspelt⟩
    exact hdigit b (by rw [hvalue]; rfl)
  have hzero : zero < 0x80 := by decide
  apply Text.isAscii_of_forall
  cases hform with
  | hexadecimal hmark | octal hmark | binary hmark =>
    refine List.forall_mem_cons.2 ⟨hzero, List.forall_mem_cons.2 ⟨?_, hsmall⟩⟩
    rcases hmark with rfl | rfl <;> decide
  | leadingZero => exact List.forall_mem_cons.2 ⟨hzero, hsmall⟩
  | decimal => exact hsmall

end Numeral

namespace Assembly

/-- The tokens that are taken for a mnemonic, a register or a special operand where one may stand. -/
inductive IsName (token : Text) : Prop
  | data (h : Text.upper token = ascii "DAT")
  | nonBasic {op : NonBasicOp} (h : NonBasicOp.ofName? token = some op)
  | basic {op : BasicOp} (h : BasicOp.ofName? token = some op)
  | register {reg : Register} (h : Register.ofName? token = some reg)
  | special {sp : Special} (h : Special.ofName? token = some sp)

def allNames : List Text :=
  ascii "DAT" :: ascii "JSR" :: (BasicOp.names ++ (Register.names ++ Special.names))

theorem isName_iff {token : Text} : IsName token ↔ Text.upper token ∈ allNames := by
  simp only [allNames, List.mem_cons, List.mem_append, ← BasicOp.isSome_ofName?, ← Register.isSome_ofName?,
    ← Special.isSome_ofName?, Option.isSome_iff_exists]
  constructor
  · intro h
    cases h with
    | data h => exact .inl h
    | nonBasic h => exact .inr (.inl (NonBasicOp.ofName?_eq_some_iff.1 h).1)
    | basic h => exact .inr (.inr (.inl ⟨_, h⟩))
    | register h => exact .inr (.inr (.inr (.inl ⟨_, h⟩)))
    | special h => exact .inr (.inr (.inr (.inr ⟨_, h⟩)))
  · rintro (h | h | ⟨op, h⟩ | ⟨reg, h⟩ | ⟨sp, h⟩)
    · exact .data h
    · exact .nonBasic (NonBasicOp.ofName?_eq_some_iff.2 ⟨h, rfl⟩)
    · exact .basic h
    · exact .register h
    · exact .special h

theorem IsName.all_isAsciiLetter_latin {token : Text} (h : IsName token) :
    Text.latin token ≠ [] ∧ ∀ b ∈ Text.latin token, Text.isAsciiLetter b = true := by
  have hnames : allNames.all (fun name => !name.isEmpty && name.all Text.isAsciiLetter) = true := by decide +kernel
  have hupper : ∀ b : UInt8, Text.isAsciiLetter (Text.upperByte b) = true → Text.isAsciiLetter b = true :=
    Text.forall_byte (by decide +kernel)
  obtain ⟨hne, hletters⟩ : Text.upper token ≠ [] ∧ ∀ b ∈ Text.upper token, Text.isAsciiLetter b = true := by
    simpa using List.all_eq_true.1 hnames _ (isName_iff.1 h)
  have hletter : ∀ b : UInt8, Text.isAsciiLetter b = true → b < 0x80 := Text.forall_byte (by decide +kernel)
  have hascii : Text.isAscii (Text.upper token) = true :=
    Text.isAscii_of_forall fun b hb => hletter b (hletters b hb)
  rw [Text.upper_eq_map_latin (.inl hascii)] at hne hletters
  refine ⟨mt List.map_eq_nil_iff.2 hne, fun b hb => ?_⟩
  exact hupper b (hletters _ (List.mem_map_of_mem hb))

theorem IsName.isAscii_latin {token : Text} (h : IsName token) : Text.isAscii (Text.latin token) = true := by
  have hletter : ∀ b : UInt8, Text.isAsciiLetter b = true → b < 0x80 := Text.forall_byte (by decide +kernel)
  apply Text.isAscii_of_forall
  intro b hb
  exact hletter b (h.all_isAsciiLetter_latin.2 b hb)

theorem IsName.isLabel {token : Text} (h : IsName token) (hascii : Text.isAscii token = true) :
    isLabel token = true := by
  obtain ⟨hne, hletters⟩ := h.all_isAsciiLetter_latin
  rw [Text.latin_of_isAscii hascii] at hne hletters
  have hstart : ∀ b ∈ token, isLabelStart b = true := by
    intro b hb
    rw [isLabelStart, hletters b hb]
    rfl
  cases token with
  | nil => contradiction
  | cons b rest =>
    obtain ⟨hfirst, hrest⟩ := List.forall_mem_cons.1 hstart
    rw [Assembly.isLabel, hfirst, Bool.true_and, List.all_eq_true]
    intro c hc
    rw [hrest c hc, Bool.true_or]

theorem isName_iff_latin {token : Text} :
    IsName token ↔ Text.isAscii (Text.latin token) = true ∧ IsName (Text.latin token) := by
  constructor
  · intro h
    refine ⟨h.isAscii_latin, ?_⟩
    rwa [isName_iff, Text.upper_latin h.isAscii_latin, ← isName_iff]
  · rintro ⟨hascii, h⟩
    rwa [isName_iff, ← Text.upper_latin hascii, ← isName_iff]

theorem isAscii_of_isLabel {token : Text} (h : isLabel token = true) : Text.isAscii token = true := by
  have hbyte : ∀ b : UInt8, (isLabelStart b || Text.isDigit b) = true → b < 0x80 :=
    Text.forall_byte (by decide +kernel)
  apply Text.isAscii_of_forall
  cases token with
  | nil => exact absurd h Bool.false_ne_true
  | cons b rest =>
    obtain ⟨hstart, hrest⟩ := Bool.and_eq_true_iff.1 h
    refine List.forall_mem_cons.2 ⟨hbyte b (by rw [hstart, Bool.true_or]), fun c hc => ?_⟩
    exact hbyte c (List.all_eq_true.1 hrest c hc)

/-- The tokens of ASCII: separators, what has the form of a label, and numerals that fit a word. -/
inductive AsciiToken : Text → Prop
  | separator {b : UInt8} (h : Token.isSeparator b = true) : AsciiToken [b]
  | label {token : Text} (h : isLabel token = true) : AsciiToken token
  | numeral {token : Text} {n : Nat} (hn : n ≤ 0xffff) (h : Numeral.Denotes token n) : AsciiToken token

theorem AsciiToken.isAscii {token : Text} (h : AsciiToken token) : Text.isAscii token = true := by
  have hseparator : ∀ b : UInt8, Token.isSeparator b = true → Text.isAscii [b] = true :=
    Text.forall_byte (by decide +kernel)
  cases h with
  | separator hb => exact hseparator _ hb
  | label hlabel => exact isAscii_of_isLabel hlabel
  | numeral _ hdenotes => exact hdenotes.isAscii

inductive Admissible (token : Text) : Prop
  | expression (h : Token.expressionStart <+: token)
  | ascii (h : AsciiToken token)
  | name (h : IsName token)

theorem admissible_separator {b : UInt8} (h : Token.isSeparator b = true) : Admissible [b] :=
  .ascii (.separator h)

end Assembly

namespace Grammar

open Assembly

section
variable {evaluate : Evaluator}

theorem admissible_of_numberWord {token : Text} {word : UInt16} (h : numberWord evaluate token = .ok word) :
    Admissible token := by
  by_cases hstart : Token.expressionStart <+: token
  · exact .expression hstart
  · have hdenotes := (numberWord_eq_ok_iff evaluate hstart).1 h
    exact .ascii (.numeral (Nat.le_of_lt_succ word.toNat_lt) hdenotes)

theorem Atom.Spelt.admissible {token : Text} {a : Atom} (h : a.Spelt evaluate token) : Admissible token := by
  cases h with
  | number hword => exact admissible_of_numberWord hword
  | label hlabel _ => exact .ascii (.label hlabel)

theorem Atom.SpeltFreely.admissible {tokens : List Text} {a : Atom} (h : a.SpeltFreely evaluate tokens) :
    ∀ token ∈ tokens, Admissible token := by
  cases h with
  | atom ha => exact List.forall_mem_singleton.2 ha.admissible
  | negative hword =>
    exact List.forall_mem_cons.2 ⟨admissible_separator (by decide),
      List.forall_mem_singleton.2 (admissible_of_numberWord hword)⟩

theorem admissible_bracketed {tokens : List Text} (h : ∀ token ∈ tokens, Admissible token) :
    ∀ token ∈ openToken :: (tokens ++ [closeToken]), Admissible token := by
  refine List.forall_mem_cons.2 ⟨admissible_separator (by decide), List.forall_mem_append.2 ⟨h, ?_⟩⟩
  exact List.forall_mem_singleton.2 (admissible_separator (by decide))

theorem admissible_sum {left right : Text} (hleft : Admissible left) (hright : Admissible right) :
    ∀ token ∈ [left, plusToken, right], Admissible token :=
  List.forall_mem_cons.2 ⟨hleft, List.forall_mem_cons.2 ⟨admissible_separator (by decide),
    List.forall_mem_singleton.2 hright⟩⟩

theorem Term.Spelt.admissible {tokens : List Text} {a : Term} (h : a.Spelt evaluate tokens) :
    ∀ token ∈ tokens, Admissible token := by
  cases h with
  | register hreg => exact List.forall_mem_singleton.2 (.name (.register hreg))
  | special hsp =>
    exact List.forall_mem_singleton.2 (.name (.special hsp))
  | bare ha => exact ha.admissible
  | indirect hreg => exact admissible_bracketed (List.forall_mem_singleton.2 (.name (.register hreg)))
  | memory ha => exact admissible_bracketed (List.forall_mem_singleton.2 ha.admissible)
  | offsetFirst ha hreg => exact admissible_bracketed (admissible_sum ha.admissible (.name (.register hreg)))
  | registerFirst ha hreg => exact admissible_bracketed (admissible_sum (.name (.register hreg)) ha.admissible)

theorem Phrase.Spelt.admissible {tokens : List Text} {p : Phrase} (h : p.Spelt evaluate tokens) :
    ∀ token ∈ tokens, Admissible token := by
  have hcomma : Admissible commaToken := admissible_separator (by decide)
  cases h with
  | data hm _ hvalues =>
    refine List.forall_mem_cons.2 ⟨.name (.data hm), ?_⟩
    exact forall_mem_intercalate hvalues hcomma Atom.SpeltFreely.admissible
  | nonBasic hm ha =>
    exact List.forall_mem_cons.2 ⟨.name (.nonBasic hm), ha.admissible⟩
  | basic hm ha hb =>
    refine List.forall_mem_cons.2 ⟨.name (.basic hm), ?_⟩
    exact List.forall_mem_append.2 ⟨ha.admissible, List.forall_mem_cons.2 ⟨hcomma, hb.admissible⟩⟩

end
end Grammar

namespace Assembly

theorem admissible_of_parse {evaluate : Evaluator} {source : Source} {p : Program}
    (h : parse evaluate source = .ok p) {line token : Text} (hline : line ∈ source.lines)
    (htoken : token ∈ Token.ofLine line) : Admissible token := by
  have hpass := (assembles_of_parse h).pass
  have hrow : Token.ofLine line ∈ source.lines.map Token.ofLine := List.mem_map_of_mem hline
  rw [← declaring_append_lineStatement (Token.ofLine line), List.mem_append] at htoken
  rcases htoken with hdeclared | hstated
  · obtain ⟨label, hlabel, hmem⟩ := List.mem_flatMap.1 hdeclared
    have hvalid := ((hpass.mem_of_mem hrow).1 label hlabel).1
    rcases List.mem_pair.1 hmem with rfl | rfl
    · exact admissible_separator (by decide)
    · exact .ascii (.label hvalid)
  · rcases hpass.spelt_of_mem hrow with hnone | ⟨phrase, hspelt⟩
    · rw [hnone] at hstated
      contradiction
    · exact hspelt.admissible token hstated

/-- In a source that assembles, a token that starts no expression is ASCII, and is then a separator, has the form
of a label or is a numeral, or else it is a name with a letter outside ASCII. Such a letter is a long s that stands
for an S or a dotless i that stands for an I, and the name is the one that has these letters in their place. -/
theorem parse_tokens {evaluate : Evaluator} {source : Source} {p : Program}
    (h : parse evaluate source = .ok p) :
    (∀ line ∈ source.lines, ∀ token ∈ Token.ofLine line, ¬ Token.expressionStart <+: token →
      (Text.isAscii token = true ∧ AsciiToken token) ∨ (Text.isAscii token = false ∧ IsName token)) ∧
    (∀ token, IsName token ↔ Text.isAscii (Text.latin token) = true ∧ IsName (Text.latin token)) ∧
    ∀ token, Text.isAscii (Text.latin token) = true → Text.upper (Text.latin token) = Text.upper token := by
  refine ⟨fun line hline token htoken hstart => ?_, fun token => isName_iff_latin, fun token => Text.upper_latin⟩
  cases admissible_of_parse h hline htoken with
  | expression hexpression => exact absurd hexpression hstart
  | ascii hkind => exact .inl ⟨hkind.isAscii, hkind⟩
  | name hname =>
    -- In ASCII a name has the form of a label, so only the other spellings are a case of their own.
    cases hascii : Text.isAscii token with
    | true => exact .inl ⟨rfl, .label (hname.isLabel hascii)⟩
    | false => exact .inr ⟨rfl, hname⟩

def foldedText : Text :=
  ascii ":top " ++ Text.longS ++ ascii "ub [0x10+" ++ Text.dotlessI ++
    ascii "], $(len(\"" ++ [0xc3, 0xa9] ++ ascii "\"))"

theorem parse_tokens_foldedText :
    ∃ p, parse Constant.closed (Source.ofText foldedText) = .ok p ∧ p.words = [0x8963, 0x10] ∧
      IsName (Text.longS ++ ascii "ub") ∧ IsName Text.dotlessI ∧ AsciiToken (ascii "top") ∧
      AsciiToken (ascii "0x10") ∧ IsName (ascii "Sub") ∧
      Text.upper (ascii "Sub") = Text.upper (Text.longS ++ ascii "ub") := by
  have hparse : (parse Constant.closed (Source.ofText foldedText)).map Program.words = .ok [0x8963, 0x10] := by
    decide +kernel
  have hline : foldedText ∈ (Source.ofText foldedText).lines := by decide +kernel
  obtain ⟨p, hp, hwords⟩ := map_eq_ok_iff.1 hparse
  obtain ⟨hkinds, hnames, hupper⟩ := parse_tokens hp
  have htoken := hkinds foldedText hline
  obtain ⟨-, hsub⟩ := (htoken (Text.longS ++ ascii "ub") (by decide +kernel) (by decide)).resolve_left
    (not_and_of_not_left _ (by decide))
  obtain ⟨-, hi⟩ := (htoken Text.dotlessI (by decide +kernel) (by decide)).resolve_left
    (not_and_of_not_left _ (by decide))
  obtain ⟨-, htop⟩ := (htoken (ascii "top") (by decide +kernel) (by decide)).resolve_right
    (not_and_of_not_left _ (by decide))
  obtain ⟨-, hnumeral⟩ := (htoken (ascii "0x10") (by decide +kernel) (by decide)).resolve_right
    (not_and_of_not_left _ (by decide))
  obtain ⟨hascii, hlatin⟩ := (hnames _).1 hsub
  exact ⟨p, hp, hwords.symm, hsub, hi, htop, hnumeral, hlatin, hupper _ hascii⟩

/-- A token outside expressions that is not ASCII is taken for a mnemonic. -/
theorem parse_long_s :
    ∃ p, parse Constant.closed (Source.ofText (Text.longS ++ ascii "ET A, 1")) = .ok p ∧ p.words = [0x8401] ∧
      ∃ line ∈ (Source.ofText (Text.longS ++ ascii "ET A, 1")).lines, ∃ token ∈ Token.ofLine line,
        ¬ Token.expressionStart <+: token ∧ Text.isAscii token = false ∧
          (BasicOp.ofName? token).isSome = true := by
  have hparse :
      (parse Constant.closed (Source.ofText (Text.longS ++ ascii "ET A, 1"))).map Program.words =
        .ok [0x8401] := by
    decide +kernel
  obtain ⟨p, hp, hwords⟩ := map_eq_ok_iff.1 hparse
  exact ⟨p, hp, hwords.symm, by decide +kernel⟩

end Assembly
end Asm16

import Asm16.Token

/-! How a line is made of its tokens. The relation between a text and its tokens is said by rules, one for
each kind of token and one for blanks; the scanner finds the tokens for which it holds, and there are no
others. -/

namespace Asm16.Token

def stops : Text → Bool
  | [] => true
  | b :: rest => isSeparator b || isBlank b || expressionStart.isPrefixOf (b :: rest)

/-- Whether neither a separator, nor a blank, nor an expression begins anywhere in a text. -/
def isRun : Text → Bool
  | [] => true
  | b :: rest => !stops (b :: rest) && isRun rest

/-- Whether the parentheses of a text, `depth` of them open before it, are closed at its end and not
before. -/
def closes (depth : Nat) : Text → Bool
  | [] => false
  | b :: rest =>
    if b = openParen then closes (depth + 1) rest
    else if b = closeParen then (if depth ≤ 1 then rest.isEmpty else closes (depth - 1) rest)
    else closes depth rest

def staysOpen (depth : Nat) : Text → Bool
  | [] => true
  | b :: rest =>
    if b = openParen then staysOpen (depth + 1) rest
    else if b = closeParen then (if depth ≤ 1 then false else staysOpen (depth - 1) rest)
    else staysOpen depth rest

/-- The tokens of a text without comments. -/
inductive Lexed : Text → List Text → Prop
  | nil : Lexed [] []
  | blank {b : UInt8} {t : Text} {tokens : List Text} (hb : isBlank b = true) (h : Lexed t tokens) :
    Lexed (b :: t) tokens
  | separator {b : UInt8} {t : Text} {tokens : List Text} (hb : isSeparator b = true) (h : Lexed t tokens) :
    Lexed (b :: t) ([b] :: tokens)
  | expression {inner t : Text} {tokens : List Text} (hcloses : closes 1 inner = true) (h : Lexed t tokens) :
    Lexed (expressionStart ++ inner ++ t) ((expressionStart ++ inner) :: tokens)
  | unclosed {inner : Text} (hopen : staysOpen 1 inner = true) :
    Lexed (expressionStart ++ inner) [expressionStart ++ inner]
  | word {w t : Text} {tokens : List Text} (hne : w ≠ []) (hrun : isRun w = true) (hstops : stops t = true)
    (h : Lexed t tokens) : Lexed (w ++ t) (w :: tokens)

theorem stops_cons_append (b : UInt8) (w : Text) {t : Text} (h : stops t = true) :
    stops (b :: (w ++ t)) = stops (b :: w) := by
  cases w with
  | cons c w => simp [stops, expressionStart, List.isPrefixOf]
  | nil =>
    -- Only the byte behind could complete an expression, and it is no parenthesis.
    cases t with
    | nil => rfl
    | cons c rest =>
      have hparen : (isSeparator openParen || isBlank openParen || dollar == openParen) = false := by decide
      have hc : openParen ≠ c := by
        rintro rfl
        simp only [Bool.or_eq_false_iff] at hparen
        simp [stops, expressionStart, List.isPrefixOf_cons_cons, hparen] at h
      simp [stops, expressionStart, List.isPrefixOf, hc]

theorem wordFrom_cons (taken : Text) (b : UInt8) (rest : Text) :
    wordFrom taken (b :: rest) =
      if stops (b :: rest) then (taken.reverse, b :: rest) else wordFrom (b :: taken) rest := rfl

theorem wordFrom_append_of_stops {w t : Text} (hrun : isRun w = true) (hstops : stops t = true)
    (taken : Text) : wordFrom taken (w ++ t) = (taken.reverse ++ w, t) := by
  induction w generalizing taken with
  | nil =>
    rw [List.nil_append, List.append_nil]
    cases t with
    | nil => rfl
    | cons b rest => rw [wordFrom_cons, if_pos hstops]
  | cons b w ih =>
    obtain ⟨hfirst, hrest⟩ := Bool.and_eq_true_iff.1 hrun
    have hgoes : stops (b :: (w ++ t)) = false := by
      rw [stops_cons_append b w hstops]
      simpa using hfirst
    rw [List.cons_append, wordFrom_cons, hgoes, if_neg (by decide), ih hrest, List.reverse_cons,
      List.append_assoc]
    rfl

theorem exists_run_of_wordFrom (taken t : Text) :
    ∃ w rest, t = w ++ rest ∧ wordFrom taken t = (taken.reverse ++ w, rest) ∧ isRun w = true ∧
      stops rest = true := by
  induction t generalizing taken with
  | nil => exact ⟨[], [], rfl, by rw [List.append_nil, wordFrom], rfl, rfl⟩
  | cons b rest ih =>
    by_cases hstops : stops (b :: rest) = true
    · exact ⟨[], b :: rest, rfl, by rw [List.append_nil, wordFrom_cons, if_pos hstops], rfl, hstops⟩
    · obtain ⟨w, after, rfl, hword, hrun, hafter⟩ := ih (b :: taken)
      refine ⟨b :: w, after, rfl, ?_, ?_, hafter⟩
      · rw [wordFrom_cons, if_neg hstops, hword, List.reverse_cons, List.append_assoc]
        rfl
      · rw [stops_cons_append b w hafter] at hstops
        rw [isRun, hrun, Bool.eq_false_iff.2 hstops]
        rfl

theorem isBlank_eq_false_of_isRun {w : Text} (h : isRun w = true) {b : UInt8} (hb : b ∈ w) : isBlank b = false := by
  induction w with
  | nil => contradiction
  | cons c w ih =>
    obtain ⟨hfirst, hrest⟩ := Bool.and_eq_true_iff.1 h
    rcases List.mem_cons.1 hb with rfl | hb
    · simp only [stops, Bool.not_eq_true', Bool.or_eq_false_iff] at hfirst
      exact hfirst.1.2
    · exact ih hrest hb

theorem expressionFrom_append_of_closes {depth : Nat} {inner : Text} (h : closes depth inner = true)
    (taken t : Text) : expressionFrom depth taken (inner ++ t) = (taken.reverse ++ inner, t) := by
  fun_induction closes depth inner generalizing taken with
  | case1 => contradiction
  | case2 depth rest ih => simp [expressionFrom, ih h]
  | case3 depth rest hopen hdepth =>
    obtain rfl := List.isEmpty_iff.1 h
    simp [expressionFrom, hopen, hdepth]
  | case4 depth rest hopen hdepth ih => simp [expressionFrom, hopen, hdepth, ih h]
  | case5 depth b rest hopen hclose ih => simp [expressionFrom, hopen, hclose, ih h]

theorem expressionFrom_of_staysOpen {depth : Nat} {inner : Text} (h : staysOpen depth inner = true)
    (taken : Text) : expressionFrom depth taken inner = (taken.reverse ++ inner, []) := by
  fun_induction staysOpen depth inner generalizing taken with
  | case1 => simp [expressionFrom]
  | case2 depth rest ih => simp [expressionFrom, ih h]
  | case3 => contradiction
  | case4 depth rest hopen hdepth ih => simp [expressionFrom, hopen, hdepth, ih h]
  | case5 depth b rest hopen hclose ih => simp [expressionFrom, hopen, hclose, ih h]

theorem exists_closes_or_staysOpen (depth : Nat) (t : Text) :
    (∃ inner rest, t = inner ++ rest ∧ closes depth inner = true) ∨ staysOpen depth t = true := by
  fun_induction staysOpen depth t with
  | case1 => exact .inr rfl
  | case2 depth rest ih =>
    rcases ih with ⟨inner, after, rfl, hcloses⟩ | hstays
    · exact .inl ⟨openParen :: inner, after, rfl, by simpa [closes] using hcloses⟩
    · exact .inr hstays
  | case3 depth rest hopen hdepth =>
    exact .inl ⟨[closeParen], rest, rfl, by simp [closes, hopen, hdepth]⟩
  | case4 depth rest hopen hdepth ih =>
    rcases ih with ⟨inner, after, rfl, hcloses⟩ | hstays
    · exact .inl ⟨closeParen :: inner, after, rfl, by simpa [closes, hopen, hdepth] using hcloses⟩
    · exact .inr hstays
  | case5 depth b rest hopen hclose ih =>
    rcases ih with ⟨inner, after, rfl, hcloses⟩ | hstays
    · exact .inl ⟨b :: inner, after, rfl, by simpa [closes, hopen, hclose] using hcloses⟩
    · exact .inr hstays

theorem expressionFrom_open (t : Text) :
    expressionFrom 0 [dollar] (openParen :: t) = expressionFrom 1 [openParen, dollar] t := by
  rw [expressionFrom, if_pos rfl]

theorem isPrefixOf_expressionStart_iff {t : Text} :
    expressionStart.isPrefixOf t = true ↔ ∃ rest, t = dollar :: openParen :: rest := by
  rw [List.isPrefixOf_iff_prefix]
  constructor
  · rintro ⟨rest, rfl⟩
    exact ⟨rest, rfl⟩
  · rintro ⟨rest, rfl⟩
    exact ⟨rest, rfl⟩

theorem exists_lexed_of_tokensFrom (done : List Text) (t : Text) :
    ∃ tokens, tokensFrom done t = done.reverse ++ tokens ∧ Lexed t tokens := by
  fun_induction tokensFrom done t with
  | case1 done => exact ⟨[], (List.append_nil _).symm, .nil⟩
  | case2 done b rest hblank ih =>
    obtain ⟨tokens, htokens, hlexed⟩ := ih
    exact ⟨tokens, htokens, .blank hblank hlexed⟩
  | case3 done b rest hblank hseparator ih =>
    obtain ⟨tokens, htokens, hlexed⟩ := ih
    refine ⟨[b] :: tokens, ?_, .separator hseparator hlexed⟩
    rw [htokens, List.reverse_cons, List.append_assoc]
    rfl
  | case4 done b rest hblank hseparator hstart ih =>
    obtain ⟨after, heq⟩ := isPrefixOf_expressionStart_iff.1 hstart
    obtain ⟨rfl, rfl⟩ := List.cons.inj heq
    rw [expressionFrom_open] at ih ⊢
    rcases exists_closes_or_staysOpen 1 after with ⟨inner, more, rfl, hcloses⟩ | hopen
    · rw [expressionFrom_append_of_closes hcloses] at ih ⊢
      obtain ⟨tokens, htokens, hlexed⟩ := ih
      refine ⟨(expressionStart ++ inner) :: tokens, ?_, .expression hcloses hlexed⟩
      rw [htokens, List.reverse_cons, List.append_assoc]
      rfl
    · rw [expressionFrom_of_staysOpen hopen] at ih ⊢
      refine ⟨[expressionStart ++ after], ?_, .unclosed hopen⟩
      rw [tokensFrom, List.reverse_cons]
      rfl
  | case5 done b rest hblank hseparator hstart ih =>
    obtain ⟨w, after, rfl, hword, hrun, hafter⟩ := exists_run_of_wordFrom [b] rest
    rw [hword] at ih ⊢
    obtain ⟨tokens, htokens, hlexed⟩ := ih
    have hfirst : stops (b :: w) = false := by
      rw [← stops_cons_append b w hafter, stops, Bool.eq_false_iff.2 hblank, Bool.eq_false_iff.2 hseparator,
        Bool.eq_false_iff.2 hstart]
      rfl
    refine ⟨(b :: w) :: tokens, ?_, .word (List.cons_ne_nil b w) ?_ hafter hlexed⟩
    · rw [htokens, List.reverse_cons, List.append_assoc]
      rfl
    · rw [isRun, hfirst, hrun]
      rfl

theorem isBlank_of_isSeparator {b : UInt8} (h : isSeparator b = true) : isBlank b = false := by
  have hseparators : separators.all (fun b => !isBlank b) = true := by decide
  have hmem : b ∈ separators := List.contains_iff_mem.1 h
  simpa using List.all_eq_true.1 hseparators b hmem

theorem tokensFrom_expressionStart (done : List Text) (t : Text) :
    tokensFrom done (expressionStart ++ t) = tokensFrom ((expressionFrom 1 [openParen, dollar] t).1 :: done)
      (expressionFrom 1 [openParen, dollar] t).2 := by
  have hblank : isBlank dollar = false := by decide
  have hseparator : isSeparator dollar = false := by decide
  have hstart : expressionStart.isPrefixOf (dollar :: openParen :: t) = true :=
    isPrefixOf_expressionStart_iff.2 ⟨t, rfl⟩
  change tokensFrom done (dollar :: openParen :: t) = _
  rw [tokensFrom, hblank, hseparator, hstart, expressionFrom_open]
  rfl

theorem tokensFrom_of_lexed {t : Text} {tokens : List Text} (h : Lexed t tokens) (done : List Text) :
    tokensFrom done t = done.reverse ++ tokens := by
  induction h generalizing done with
  | nil => simp [tokensFrom]
  | blank hb _ ih => rw [tokensFrom, if_pos hb, ih]
  | separator hb _ ih =>
    rw [tokensFrom, if_neg (by simp [isBlank_of_isSeparator hb]), if_pos hb, ih, List.reverse_cons,
      List.append_assoc]
    rfl
  | expression hcloses _ ih =>
    rw [List.append_assoc, tokensFrom_expressionStart, expressionFrom_append_of_closes hcloses, ih,
      List.reverse_cons, List.append_assoc]
    rfl
  | unclosed hopen =>
    rw [tokensFrom_expressionStart, expressionFrom_of_staysOpen hopen, tokensFrom, List.reverse_cons]
    rfl
  | @word w t _ hne hrun hstops _ ih =>
    obtain ⟨b, w, rfl⟩ := List.exists_cons_of_ne_nil hne
    obtain ⟨hfirst, hrest⟩ := Bool.and_eq_true_iff.1 hrun
    have hgoes : stops (b :: (w ++ t)) = false := by
      rw [stops_cons_append b w hstops]
      simpa using hfirst
    simp only [stops, Bool.or_eq_false_iff] at hgoes
    have hword := wordFrom_append_of_stops hrest hstops [b]
    rw [List.cons_append, tokensFrom, hgoes.1.1, hgoes.1.2, hgoes.2]
    simp only [hword, ih, List.reverse_cons, List.append_assoc]
    rfl

/-- The scanner finds the tokens of a text, and they are the only ones. -/
theorem tokensFrom_eq_iff {t : Text} {tokens : List Text} : tokensFrom [] t = tokens ↔ Lexed t tokens := by
  constructor
  · rintro rfl
    obtain ⟨tokens, htokens, hlexed⟩ := exists_lexed_of_tokensFrom [] t
    rw [htokens]
    exact hlexed
  · intro h
    exact tokensFrom_of_lexed h []

theorem lexed_ofLine (line : Text) : Lexed (Text.before Text.semicolon line) (ofLine line) :=
  tokensFrom_eq_iff.1 rfl

end Asm16.Token

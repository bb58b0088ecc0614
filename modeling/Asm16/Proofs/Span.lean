import Asm16.Proofs.Lexing
import Mathlib.Data.List.Basic

/-! Where the tokens of a line stand. A line without its comment is cut into its tokens and the blanks between
them: nothing else is left out, and only expressions keep blanks of their own. An expression is the shortest
text at its place in which every parenthesis is closed, or all of the rest if there is none, and a word reaches
as far on both sides as it can. There is only one way to cut a line like this. -/

namespace Asm16.Token

/-- A token at its place: what comes before it in a text, and what after it. -/
structure Span where
  before : Text
  token : Text
  after : Text
  deriving DecidableEq, Repr

def Balanced (t : Text) : Prop := t.count openParen = t.count closeParen

namespace Span

def IsSeparator (s : Span) : Prop := ∃ b, s.token = [b] ∧ isSeparator b = true

/-- The shortest balanced text at its place that starts an expression, or all of the rest if none is balanced. -/
def IsExpression (s : Span) : Prop :=
  expressionStart <+: s.token ∧
    ((Balanced s.token ∧ ∀ t, t <+: s.token ++ s.after → expressionStart <+: t → Balanced t →
        s.token.length ≤ t.length) ∨
      (s.after = [] ∧ ∀ t, t <+: s.token → expressionStart <+: t → ¬ Balanced t))

/-- Bytes among which there is no separator, no blank and no start of an expression. -/
def IsRun (s : Span) : Prop :=
  s.token ≠ [] ∧ (∀ b ∈ s.token, Token.isSeparator b = false ∧ isBlank b = false) ∧
    ¬ expressionStart <:+: s.token

def holds (s : Span) (i : Nat) : Bool := s.before.length ≤ i && i < s.before.length + s.token.length

end Span

/-- A text that is cut into tokens with blanks around them, given what comes before it. -/
inductive Cut : Text → Text → List Span → Prop
  | blanks {front gap : Text} (hgap : gap.all isBlank = true) : Cut front gap []
  | token {front gap : Text} {s : Span} {spans : List Span} (hgap : gap.all isBlank = true)
    (hbefore : s.before = front ++ gap)
    (htoken : s.IsSeparator ∨ s.IsExpression ∨ (s.IsRun ∧ stops s.after = true))
    (hrest : Cut (s.before ++ s.token) s.after spans) :
    Cut front (gap ++ s.token ++ s.after) (s :: spans)

def insideExpression (spans : List Span) (i : Nat) : Bool :=
  spans.any fun s => expressionStart.isPrefixOf s.token && s.holds i

/-- A text without its blanks, except for those inside; `start` is the index of its first byte. -/
def withoutBlanks (inside : Nat → Bool) (start : Nat) (t : Text) : Text :=
  ((t.zipIdx start).filter fun (b, i) => !isBlank b || inside i).map Prod.fst

/-- Whether a word reaches as far as it can: it ends where something else begins, and begins where something
else ended. -/
def Span.IsMaximal (spans : List Span) (s : Span) : Prop :=
  stops s.after = true ∧
    (s.before = [] ∨ (∃ b, s.before.getLast? = some b ∧ (isSeparator b = true ∨ isBlank b = true)) ∨
      ∃ e ∈ spans, e.IsExpression ∧ e.before ++ e.token = s.before)

/-! ### Expressions -/

theorem count_lt_of_staysOpen {depth : Nat} {t : Text} (hdepth : 0 < depth) (h : staysOpen depth t = true) :
    ∀ p, p <+: t → p.count closeParen < depth + p.count openParen := by
  have hparens : openParen ≠ closeParen := by decide
  intro p hp
  fun_induction staysOpen depth t generalizing p with
  | case1 depth =>
    obtain rfl := List.prefix_nil.1 hp
    simpa using hdepth
  | case2 depth rest ih =>
    rcases List.prefix_cons_iff.1 hp with rfl | ⟨q, rfl, hq⟩
    · simpa using hdepth
    · have hlater := ih (by omega) h q hq
      rw [List.count_cons_self, List.count_cons_of_ne hparens]
      omega
  | case3 => contradiction
  | case4 depth rest hopen hdeep ih =>
    rcases List.prefix_cons_iff.1 hp with rfl | ⟨q, rfl, hq⟩
    · simpa using hdepth
    · have hlater := ih (by omega) h q hq
      rw [List.count_cons_self, List.count_cons_of_ne hparens.symm]
      omega
  | case5 depth b rest hopen hclose ih =>
    rcases List.prefix_cons_iff.1 hp with rfl | ⟨q, rfl, hq⟩
    · simpa using hdepth
    · have hlater := ih hdepth h q hq
      rwa [List.count_cons_of_ne hclose, List.count_cons_of_ne hopen]

theorem exists_of_closes {depth : Nat} {t : Text} (hdepth : 0 < depth) (h : closes depth t = true) :
    ∃ u, t = u ++ [closeParen] ∧ staysOpen depth u = true ∧
      u.count closeParen + 1 = depth + u.count openParen := by
  have hparens : openParen ≠ closeParen := by decide
  fun_induction closes depth t with
  | case1 => contradiction
  | case2 depth rest ih =>
    obtain ⟨u, rfl, hopen, hcount⟩ := ih (by omega) h
    refine ⟨openParen :: u, rfl, by simpa [staysOpen] using hopen, ?_⟩
    rw [List.count_cons_self, List.count_cons_of_ne hparens]
    omega
  | case3 depth rest hopen hlast =>
    obtain rfl := List.isEmpty_iff.1 h
    obtain rfl : depth = 1 := by omega
    exact ⟨[], rfl, rfl, rfl⟩
  | case4 depth rest hopen hdeep ih =>
    obtain ⟨u, rfl, hstays, hcount⟩ := ih (by omega) h
    refine ⟨closeParen :: u, rfl, by simpa [staysOpen, hopen, hdeep] using hstays, ?_⟩
    rw [List.count_cons_self, List.count_cons_of_ne hparens.symm]
    omega
  | case5 depth b rest hopen hclose ih =>
    obtain ⟨u, rfl, hstays, hcount⟩ := ih hdepth h
    refine ⟨b :: u, rfl, by simpa [staysOpen, hopen, hclose] using hstays, ?_⟩
    rwa [List.count_cons_of_ne hclose, List.count_cons_of_ne hopen]

theorem balanced_expressionStart_iff {inner : Text} :
    Balanced (expressionStart ++ inner) ↔ inner.count closeParen = 1 + inner.count openParen := by
  have hopens : expressionStart.count openParen = 1 := by decide
  have hcloses : expressionStart.count closeParen = 0 := by decide
  rw [Balanced, List.count_append, List.count_append, hopens, hcloses, Nat.zero_add, eq_comm]

theorem not_balanced_of_staysOpen {inner t : Text} (h : staysOpen 1 inner = true)
    (ht : t <+: expressionStart ++ inner) (hstart : expressionStart <+: t) : ¬ Balanced t := by
  obtain ⟨p, rfl⟩ := hstart
  have hlt := count_lt_of_staysOpen Nat.one_pos h p ((List.prefix_append_right_inj expressionStart).1 ht)
  rw [balanced_expressionStart_iff]
  omega

theorem balanced_of_closes {inner : Text} (h : closes 1 inner = true) : Balanced (expressionStart ++ inner) := by
  obtain ⟨u, rfl, -, hcount⟩ := exists_of_closes Nat.one_pos h
  have hopens : [closeParen].count openParen = 0 := by decide
  have hcloses : [closeParen].count closeParen = 1 := by decide
  rw [balanced_expressionStart_iff, List.count_append, List.count_append, hopens, hcloses]
  omega

theorem length_le_of_closes {inner after t : Text} (h : closes 1 inner = true)
    (ht : t <+: expressionStart ++ inner ++ after) (hstart : expressionStart <+: t) (hbalanced : Balanced t) :
    (expressionStart ++ inner).length ≤ t.length := by
  obtain ⟨u, rfl, hopen, -⟩ := exists_of_closes Nat.one_pos h
  apply Nat.le_of_not_lt
  intro hshort
  apply not_balanced_of_staysOpen hopen _ hstart hbalanced
  -- Anything shorter ends before the last byte of the expression.
  have hlonger : expressionStart ++ u <+: expressionStart ++ (u ++ [closeParen]) ++ after := by
    refine ⟨closeParen :: after, ?_⟩
    simp
  apply List.prefix_of_prefix_length_le ht hlonger
  simp only [List.length_append, List.length_singleton] at hshort ⊢
  omega

theorem isExpression_of_closes {inner : Text} (h : closes 1 inner = true) (before after : Text) :
    Span.IsExpression ⟨before, expressionStart ++ inner, after⟩ :=
  ⟨List.prefix_append _ _, .inl ⟨balanced_of_closes h, fun _ => length_le_of_closes h⟩⟩

theorem isExpression_of_staysOpen {inner : Text} (h : staysOpen 1 inner = true) (before : Text) :
    Span.IsExpression ⟨before, expressionStart ++ inner, []⟩ :=
  ⟨List.prefix_append _ _, .inr ⟨rfl, fun _ => not_balanced_of_staysOpen h⟩⟩

theorem Span.IsExpression.cases {s : Span} (h : s.IsExpression) :
    ∃ inner, s.token = expressionStart ++ inner ∧
      (closes 1 inner = true ∨ (staysOpen 1 inner = true ∧ s.after = [])) := by
  obtain ⟨before, token, after⟩ := s
  obtain ⟨⟨inner, rfl⟩, hcases⟩ := h
  refine ⟨inner, rfl, ?_⟩
  simp only at hcases ⊢
  -- The scanner finds one of the two at this place, and it can only be this token.
  rcases exists_closes_or_staysOpen 1 (inner ++ after) with ⟨found, more, hfound, hcloses⟩ | hopen
  · have hprefix : expressionStart ++ found <+: expressionStart ++ inner ++ after := by
      rw [List.append_assoc, hfound, ← List.append_assoc]
      exact List.prefix_append _ _
    have hbalanced := balanced_of_closes hcloses
    have hprefix' : expressionStart ++ inner <+: expressionStart ++ found ++ more := by
      rw [List.append_assoc, ← hfound, ← List.append_assoc]
      exact List.prefix_append _ _
    rcases hcases with ⟨hself, hleast⟩ | ⟨rfl, hnone⟩
    · have hle := hleast _ hprefix (List.prefix_append _ _) hbalanced
      have hge := length_le_of_closes hcloses hprefix' (List.prefix_append _ _) hself
      have hsame : found = inner := by
        apply List.append_inj_left hfound.symm
        simp only [List.length_append] at hle hge
        omega
      exact .inl (hsame ▸ hcloses)
    · rw [List.append_nil] at hprefix
      exact absurd hbalanced (hnone _ hprefix (List.prefix_append _ _))
  · rcases hcases with ⟨hself, -⟩ | ⟨rfl, -⟩
    · have hprefix : expressionStart ++ inner <+: expressionStart ++ (inner ++ after) := by
        rw [← List.append_assoc]
        exact List.prefix_append _ _
      exact absurd hself (not_balanced_of_staysOpen hopen hprefix (List.prefix_append _ _))
    · rw [List.append_nil] at hopen
      exact .inr ⟨hopen, rfl⟩

/-! ### Words -/

theorem isRun_iff {w : Text} :
    isRun w = true ↔ (∀ b ∈ w, isSeparator b = false ∧ isBlank b = false) ∧ ¬ expressionStart <:+: w := by
  induction w with
  | nil => simp [isRun, expressionStart]
  | cons b w ih =>
    have hinfix : expressionStart <:+: b :: w ↔ expressionStart <+: b :: w ∨ expressionStart <:+: w :=
      List.infix_cons_iff
    rw [isRun, Bool.and_eq_true, ih, List.forall_mem_cons, hinfix, ← List.isPrefixOf_iff_prefix]
    simp only [stops, Bool.not_eq_true', Bool.or_eq_false_iff, Bool.not_eq_true, not_or]
    exact and_and_and_comm

theorem Span.IsRun.isRun {s : Span} (h : s.IsRun) : isRun s.token = true := isRun_iff.2 h.2

theorem stops_run_append {w after : Text} (hne : w ≠ []) (hrun : isRun w = true) (hstops : stops after = true) :
    stops (w ++ after) = false := by
  obtain ⟨b, w, rfl⟩ := List.exists_cons_of_ne_nil hne
  rw [List.cons_append, stops_cons_append b w hstops]
  simpa using (Bool.and_eq_true_iff.1 hrun).1

/-! ### Cuts and tokens -/

theorem Cut.blank {front t : Text} {spans : List Span} {b : UInt8} (hb : isBlank b = true)
    (h : Cut (front ++ [b]) t spans) : Cut front (b :: t) spans := by
  cases h with
  | blanks hgap =>
    refine .blanks ?_
    rw [List.all_cons, hb, hgap, Bool.and_self]
  | @token _ gap s spans hgap hbefore htoken hrest =>
    have hlonger : (b :: gap).all isBlank = true := by rw [List.all_cons, hb, hgap, Bool.and_self]
    rw [List.append_assoc] at hbefore
    exact .token hlonger hbefore htoken hrest

theorem Cut.adjacent {front token after : Text} {spans : List Span}
    (htoken : Span.IsSeparator ⟨front, token, after⟩ ∨ Span.IsExpression ⟨front, token, after⟩ ∨
      (Span.IsRun ⟨front, token, after⟩ ∧ stops after = true))
    (h : Cut (front ++ token) after spans) : Cut front (token ++ after) (⟨front, token, after⟩ :: spans) :=
  have hnone : ([] : Text).all isBlank = true := rfl
  .token hnone (List.append_nil front).symm htoken h

theorem Lexed.exists_cut {t : Text} {tokens : List Text} (h : Lexed t tokens) (front : Text) :
    ∃ spans, spans.map Span.token = tokens ∧ Cut front t spans := by
  induction h generalizing front with
  | nil => exact ⟨[], rfl, .blanks rfl⟩
  | @blank b t tokens hb _ ih =>
    obtain ⟨spans, htokens, hcut⟩ := ih (front ++ [b])
    exact ⟨spans, htokens, hcut.blank hb⟩
  | @separator b t tokens hb _ ih =>
    obtain ⟨spans, rfl, hcut⟩ := ih (front ++ [b])
    exact ⟨_ :: spans, rfl, .adjacent (.inl ⟨b, rfl, hb⟩) hcut⟩
  | @expression inner t tokens hcloses _ ih =>
    obtain ⟨spans, rfl, hcut⟩ := ih (front ++ (expressionStart ++ inner))
    exact ⟨_ :: spans, rfl, .adjacent (.inr (.inl (isExpression_of_closes hcloses front t))) hcut⟩
  | @unclosed inner hopen =>
    have hcut : Cut front (expressionStart ++ inner ++ []) [_] :=
      .adjacent (.inr (.inl (isExpression_of_staysOpen hopen front))) (.blanks rfl)
    rw [List.append_nil] at hcut
    exact ⟨_, rfl, hcut⟩
  | @word w t tokens hne hrun hstops _ ih =>
    obtain ⟨spans, rfl, hcut⟩ := ih (front ++ w)
    exact ⟨_ :: spans, rfl, .adjacent (.inr (.inr ⟨⟨hne, isRun_iff.1 hrun⟩, hstops⟩)) hcut⟩

theorem Lexed.blanks_append {gap t : Text} {tokens : List Text} (hgap : gap.all isBlank = true)
    (h : Lexed t tokens) : Lexed (gap ++ t) tokens := by
  induction gap with
  | nil => exact h
  | cons b gap ih =>
    obtain ⟨hb, hrest⟩ := Bool.and_eq_true_iff.1 hgap
    exact .blank hb (ih hrest)

theorem Cut.lexed {front t : Text} {spans : List Span} (h : Cut front t spans) :
    Lexed t (spans.map Span.token) := by
  induction h with
  | @blanks front gap hgap =>
    rw [← List.append_nil gap]
    exact .blanks_append hgap .nil
  | @token front gap s spans hgap hbefore htoken hrest ih =>
    rw [List.append_assoc, List.map_cons]
    refine .blanks_append hgap ?_
    rcases htoken with ⟨b, hs, hb⟩ | hexpression | ⟨hrun, hstops⟩
    · rw [hs]
      exact .separator hb ih
    · obtain ⟨inner, hs, hcloses | ⟨hopen, hafter⟩⟩ := hexpression.cases
      · rw [hs]
        exact .expression hcloses ih
      · rw [hafter] at ih
        have hnone : spans.map Span.token = [] := by
          rw [← tokensFrom_eq_iff.2 ih, tokensFrom]
          rfl
        rw [hs, hafter, hnone, List.append_nil]
        exact .unclosed hopen
    · exact .word hrun.1 hrun.isRun hstops ih

/-! ### What is left out -/

section
variable {inside : Nat → Bool} {start : Nat} {t : Text}

theorem withoutBlanks_append (inside : Nat → Bool) (start : Nat) (t u : Text) :
    withoutBlanks inside start (t ++ u) =
      withoutBlanks inside start t ++ withoutBlanks inside (start + t.length) u := by
  unfold withoutBlanks
  rw [List.zipIdx_append, List.filter_append, List.map_append]

theorem withoutBlanks_eq_self (h : ∀ b ∈ t, ∀ i, start ≤ i → i < start + t.length →
    (!isBlank b || inside i) = true) : withoutBlanks inside start t = t := by
  unfold withoutBlanks
  rw [List.filter_eq_self.2, List.zipIdx_map_fst]
  rintro ⟨b, i⟩ hmem
  obtain ⟨hlow, hhigh, hb⟩ := List.mem_zipIdx hmem
  exact h b (hb ▸ List.getElem_mem _) i hlow hhigh

theorem withoutBlanks_eq_nil (hblanks : t.all isBlank = true)
    (h : ∀ i, start ≤ i → i < start + t.length → inside i = false) : withoutBlanks inside start t = [] := by
  unfold withoutBlanks
  rw [List.filter_eq_nil_iff.2, List.map_nil]
  rintro ⟨b, i⟩ hmem
  obtain ⟨hlow, hhigh, hb⟩ := List.mem_zipIdx hmem
  have hblank : isBlank b = true := List.all_eq_true.1 hblanks b (hb ▸ List.getElem_mem _)
  simp [hblank, h i hlow hhigh]

end

theorem Cut.placed {front t : Text} {spans : List Span} (h : Cut front t spans) :
    ∀ s ∈ spans, front.length ≤ s.before.length ∧ s.before ++ s.token ++ s.after = front ++ t := by
  induction h with
  | blanks => simp
  | @token front gap s spans hgap hbefore htoken hrest ih =>
    refine List.forall_mem_cons.2 ⟨?_, fun later hlater => ?_⟩
    · rw [hbefore, List.length_append]
      exact ⟨Nat.le_add_right _ _, by simp⟩
    · obtain ⟨hle, hplaced⟩ := ih later hlater
      rw [hplaced, hbefore]
      rw [hbefore, List.length_append, List.length_append] at hle
      exact ⟨by omega, by simp⟩

theorem Cut.kind {front t : Text} {spans : List Span} (h : Cut front t spans) :
    ∀ s ∈ spans, s.IsSeparator ∨ s.IsExpression ∨ (s.IsRun ∧ stops s.after = true) := by
  induction h with
  | blanks => simp
  | token _ _ htoken _ ih => exact List.forall_mem_cons.2 ⟨htoken, ih⟩

theorem Span.holds_iff {s : Span} {i : Nat} :
    s.holds i = true ↔ s.before.length ≤ i ∧ i < s.before.length + s.token.length := by
  simp [holds]

theorem insideExpression_cons (s : Span) (spans : List Span) (i : Nat) : insideExpression (s :: spans) i =
    (expressionStart.isPrefixOf s.token && s.holds i || insideExpression spans i) := List.any_cons

theorem insideExpression_cons_of_holds {s : Span} {i : Nat} (h : s.holds i = false) (spans : List Span) :
    insideExpression (s :: spans) i = insideExpression spans i := by
  rw [insideExpression_cons, h, Bool.and_false, Bool.false_or]

theorem Cut.insideExpression_eq_false {front t : Text} {spans : List Span} (h : Cut front t spans) {i : Nat}
    (hi : i < front.length) : insideExpression spans i = false := by
  refine List.any_eq_false.2 fun s hs => ?_
  have hle := (h.placed s hs).1
  rw [Bool.and_eq_true, Span.holds_iff]
  omega

/-- What is cut out of a text is all of it but the blanks outside expressions. -/
theorem Cut.flatten_eq {front t : Text} {spans : List Span} (h : Cut front t spans) {inside : Nat → Bool}
    (hinside : ∀ i, front.length ≤ i → inside i = insideExpression spans i) :
    (spans.map Span.token).flatten = withoutBlanks inside front.length t := by
  induction h with
  | @blanks front gap hgap =>
    rw [withoutBlanks_eq_nil hgap fun i hlow _ => hinside i hlow]
    rfl
  | @token front gap s spans hgap hbefore htoken hrest ih =>
    have hstart : s.before.length = front.length + gap.length := by rw [hbefore, List.length_append]
    have hstop : (s.before ++ s.token).length = front.length + gap.length + s.token.length := by
      rw [List.length_append, hstart]
    have houtside : ∀ i, i < s.before.length ∨ s.before.length + s.token.length ≤ i → s.holds i = false := by
      intro i hi
      rw [Bool.eq_false_iff, ne_eq, Span.holds_iff]
      omega
    have hgapNil : withoutBlanks inside front.length gap = [] := by
      apply withoutBlanks_eq_nil hgap
      intro i hlow hhigh
      rw [hinside i hlow, insideExpression_cons_of_holds (houtside i (by omega)),
        hrest.insideExpression_eq_false (by omega)]
    -- Only an expression can have blanks in it, and these are inside.
    have htokenSelf : withoutBlanks inside (front.length + gap.length) s.token = s.token := by
      apply withoutBlanks_eq_self
      intro b hb i hlow hhigh
      rcases htoken with ⟨c, hs, hc⟩ | ⟨hexpression, -⟩ | ⟨⟨-, hbytes, -⟩, -⟩
      · obtain rfl : b = c := by simpa [hs] using hb
        rw [isBlank_of_isSeparator hc]
        rfl
      · have hholds : s.holds i = true := Span.holds_iff.2 (by omega)
        rw [hinside i (by omega), insideExpression_cons, List.isPrefixOf_iff_prefix.2 hexpression, hholds,
          Bool.and_self, Bool.true_or, Bool.or_true]
      · rw [(hbytes b hb).2]
        rfl
    have hlater : (spans.map Span.token).flatten =
        withoutBlanks inside (front.length + gap.length + s.token.length) s.after := by
      rw [← hstop]
      apply ih
      intro i hi
      rw [hinside i (by omega), insideExpression_cons_of_holds (houtside i (by omega))]
    rw [withoutBlanks_append, withoutBlanks_append, List.length_append, ← Nat.add_assoc, hgapNil, htokenSelf,
      ← hlater, List.map_cons, List.flatten_cons, List.nil_append]

/-! ### Where words begin -/

theorem Cut.begins {front t : Text} {spans : List Span} (h : Cut front t spans) :
    ∀ s ∈ spans, s.IsRun → stops s.after = true →
      (s.before = front ∨ (∃ b, s.before.getLast? = some b ∧ (isSeparator b = true ∨ isBlank b = true)) ∨
        ∃ e ∈ spans, e.IsExpression ∧ e.before ++ e.token = s.before) := by
  induction h with
  | blanks => simp
  | @token front gap s spans hgap hbefore htoken hrest ih =>
    refine List.forall_mem_cons.2 ⟨fun _ _ => ?_, fun later hlater hrun hstops => ?_⟩
    · rcases List.eq_nil_or_concat' gap with rfl | ⟨init, b, rfl⟩
      · exact .inl (by rw [hbefore, List.append_nil])
      · refine .inr (.inl ⟨b, ?_, .inr (List.all_eq_true.1 hgap b (by simp))⟩)
        rw [hbefore, ← List.append_assoc, List.getLast?_concat]
    · rcases ih later hlater hrun hstops with hnext | hother | ⟨e, he, hexpression⟩
      · rcases htoken with ⟨b, hs, hb⟩ | hexpression | ⟨-, hends⟩
        · refine .inr (.inl ⟨b, ?_, .inl hb⟩)
          rw [hnext, hs, List.getLast?_concat]
        · exact .inr (.inr ⟨s, List.mem_cons_self, hexpression, hnext.symm⟩)
        · -- Two words are never adjacent: the first one would have gone on.
          have hplaced := (hrest.placed later hlater).2
          rw [hnext, List.append_assoc, List.append_cancel_left_eq] at hplaced
          rw [← hplaced, stops_run_append hrun.1 hrun.isRun hstops] at hends
          contradiction
      · exact .inr (.inl hother)
      · exact .inr (.inr ⟨e, List.mem_cons_of_mem s he, hexpression⟩)

/-- The tokens of a line are cut out of it where they stand, and nothing is lost but the blanks outside its
expressions and the comment. Each token is a separator, an expression or a word of the greatest length, and no
other tokens can be cut out like this. -/
theorem ofLine_cut (line : Text) :
    ∃ spans : List Span, spans.map Span.token = ofLine line ∧
      Cut [] (Text.before Text.semicolon line) spans ∧
      (ofLine line).flatten =
        withoutBlanks (insideExpression spans) 0 (Text.before Text.semicolon line) ∧
      (∀ s ∈ spans, s.token ≠ [] ∧ s.before ++ s.token ++ s.after = Text.before Text.semicolon line ∧
        (s.IsSeparator ∨ s.IsExpression ∨ (s.IsRun ∧ s.IsMaximal spans))) ∧
      ∀ others, Cut [] (Text.before Text.semicolon line) others → others.map Span.token = ofLine line := by
  obtain ⟨spans, htokens, hcut⟩ := (lexed_ofLine line).exists_cut []
  refine ⟨spans, htokens, hcut, ?_, fun s hs => ?_, fun others hothers => ?_⟩
  · rw [← htokens]
    exact hcut.flatten_eq fun _ _ => rfl
  · have hplaced := (hcut.placed s hs).2
    rcases hcut.kind s hs with ⟨b, htoken, hb⟩ | ⟨⟨inner, htoken⟩, hexpression⟩ | ⟨hrun, hstops⟩
    · exact ⟨by simp [htoken], hplaced, .inl ⟨b, htoken, hb⟩⟩
    · exact ⟨by simp [← htoken, expressionStart], hplaced, .inr (.inl ⟨⟨inner, htoken⟩, hexpression⟩)⟩
    · exact ⟨hrun.1, hplaced, .inr (.inr ⟨hrun, hstops, hcut.begins s hs hrun hstops⟩)⟩
  · exact (tokensFrom_eq_iff.2 hothers.lexed).symm

example : ofLine (ascii "a$$(1 (2))b [c;d") = ["a$", "$(1 (2))", "b", "[", "c"].map ascii := by decide +kernel

end Asm16.Token

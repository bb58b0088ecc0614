import Asm16.Proofs.Rendering
import Mathlib.Data.List.InsertIdx

/-! Edits of a source text. Two kinds of edits are followed through to the tokens: a line is put in
between two others, or in each line some words are replaced where they stand, with the blanks, the comments
and the line ends left as they are. -/

namespace Asm16

theorem mem_of_mem_splitOn {α : Type} [BEq α] [LawfulBEq α] {separator a : α} {l part : List α}
    (hpart : part ∈ l.splitOn separator) (ha : a ∈ part) : a ∈ l := by
  have hjoin : [separator].intercalate (l.splitOn separator) = l := List.intercalate_splitOn separator
  rw [← hjoin]
  generalize l.splitOn separator = parts at hpart
  induction parts with
  | nil => contradiction
  | cons first rest ih =>
    cases rest with
    | nil =>
      obtain rfl := List.mem_singleton.1 hpart
      rwa [List.intercalate_singleton]
    | cons next more =>
      rw [List.intercalate_cons_cons]
      rcases List.mem_cons.1 hpart with rfl | hpart
      · exact List.mem_append_left _ (List.mem_append_left _ ha)
      · exact List.mem_append_right _ (ih hpart)

namespace Text

def mapBody (g : Text → Text) (piece : Text) : Text :=
  if piece.getLast? = some carriageReturn then g piece.dropLast ++ [carriageReturn] else g piece

def mapLines (g : Nat → Text → Text) (t : Text) : Text :=
  stacked ((pieces t).mapIdx fun i piece => mapBody (g (i + 1)) piece)

structure Replaces (old new : Text) : Prop where
  mem : ∀ b ∈ new, b ∈ old ∨ Token.isPlain b = true
  eq_nil_iff : new = [] ↔ old = []
  ends : new.getLast? = some carriageReturn → old.getLast? = some carriageReturn

namespace Replaces

theorem refl (t : Text) : Replaces t t := ⟨fun _ => .inl, Iff.rfl, id⟩

theorem notMem {old new : Text} (h : Replaces old new) {b : UInt8} (hplain : Token.isPlain b = false)
    (hb : b ∉ old) : b ∉ new := by
  intro hmem
  rcases h.mem b hmem with hold | hnew
  · exact hb hold
  · rw [hplain] at hnew
    contradiction

theorem append {old new old' new' : Text} (h : Replaces old new) (h' : Replaces old' new') :
    Replaces (old ++ old') (new ++ new') where
  mem := by
    intro b hb
    rcases List.mem_append.1 hb with hb | hb
    · exact (h.mem b hb).imp_left (List.mem_append_left _)
    · exact (h'.mem b hb).imp_left (List.mem_append_right _)
  eq_nil_iff := by
    rw [List.append_eq_nil_iff, List.append_eq_nil_iff, h.eq_nil_iff, h'.eq_nil_iff]
  ends := by
    rw [List.getLast?_append, List.getLast?_append]
    intro hlast
    cases hright : new'.getLast? with
    | some b =>
      rw [hright, Option.some_or] at hlast
      rw [h'.ends (hright.trans hlast), Option.some_or]
    | none =>
      have hempty : old' = [] := h'.eq_nil_iff.1 (List.getLast?_eq_none_iff.1 hright)
      rw [hright, Option.none_or] at hlast
      rw [hempty, List.getLast?_nil, Option.none_or]
      exact h.ends hlast

end Replaces

theorem chomp_mapBody {g : Text → Text} {piece : Text} (h : Replaces (chomp piece) (g (chomp piece))) :
    chomp (mapBody g piece) = g (chomp piece) := by
  unfold chomp mapBody at *
  split
  · simp
  · rename_i hpiece
    rw [if_neg hpiece] at h
    rw [if_neg (mt h.ends hpiece)]

theorem newline_notMem_mapBody {g : Text → Text} {piece : Text} (hpiece : newline ∉ piece)
    (h : Replaces (chomp piece) (g (chomp piece))) : newline ∉ mapBody g piece := by
  have hreturn : newline ≠ carriageReturn := by decide
  unfold chomp at h
  unfold mapBody
  split
  · rename_i hlast
    rw [if_pos hlast] at h
    have hinit : newline ∉ piece.dropLast := fun hmem => hpiece (List.dropLast_subset piece hmem)
    rw [List.mem_append, not_or, List.mem_singleton]
    exact ⟨h.notMem (by decide) hinit, hreturn⟩
  · rename_i hlast
    rw [if_neg hlast] at h
    exact h.notMem (by decide) hpiece

theorem mapBody_eq_nil_iff {g : Text → Text} {piece : Text} (h : Replaces (chomp piece) (g (chomp piece))) :
    mapBody g piece = [] ↔ piece = [] := by
  unfold chomp at h
  unfold mapBody
  split
  · rename_i hlast
    have hne : piece ≠ [] := by
      rintro rfl
      simp at hlast
    simp [hne]
  · rename_i hlast
    rw [if_neg hlast] at h
    exact h.eq_nil_iff

theorem map_chomp_delivered_mapIdx {g : Nat → Text → Text} {ps : List Text}
    (h : ∀ i p, ps[i]? = some p → Replaces (chomp p) (g i (chomp p))) :
    (delivered (ps.mapIdx fun i p => mapBody (g i) p)).map chomp =
      ((delivered ps).map chomp).mapIdx g := by
  induction ps generalizing g with
  | nil => rfl
  | cons p rest ih =>
    have hp := h 0 p rfl
    have hrest := ih (g := fun i => g (i + 1)) fun i q hq => h (i + 1) q hq
    rw [List.mapIdx_cons]
    cases rest with
    | nil =>
      by_cases hempty : p = []
      · have hsame := (mapBody_eq_nil_iff hp).2 hempty
        rw [hempty] at hsame ⊢
        simp [delivered, hsame]
      · simp [delivered, mt (mapBody_eq_nil_iff hp).1 hempty, hempty, chomp_mapBody hp]
    | cons q more =>
      rw [List.mapIdx_cons] at hrest ⊢
      rw [delivered, delivered, List.map_cons, hrest, chomp_mapBody hp, List.map_cons, List.mapIdx_cons]

theorem eq_nil_or_getElem?_delivered {ps : List Text} {i : Nat} {p : Text} (h : ps[i]? = some p) :
    p = [] ∨ (delivered ps)[i]? = some p := by
  fun_induction delivered ps generalizing i with
  | case1 => contradiction
  | case2 =>
    cases i with
    | zero => exact .inl (Option.some.inj h).symm
    | succ i => contradiction
  | case3 => exact .inr h
  | case4 q r more ih =>
    cases i with
    | zero => exact .inr h
    | succ i => exact ih h

theorem forall_pieces_of_lines {P : Nat → Text → Prop} {t : Text} (ht : (lines t).overlong = false)
    (hnil : ∀ i, P i []) (h : ∀ i line, (lines t).lines[i]? = some line → P i line) :
    ∀ i p, (pieces t)[i]? = some p → P i (chomp p) := by
  intro i p hp
  rcases eq_nil_or_getElem?_delivered hp with rfl | hdelivered
  · exact hnil i
  · apply h
    rw [lines_of_short (short_of_read ht), List.getElem?_map, hdelivered, Option.map_some]

theorem pieces_mapLines {g : Nat → Text → Text} {t : Text}
    (h : ∀ i p, (pieces t)[i]? = some p → Replaces (chomp p) (g (i + 1) (chomp p))) :
    pieces (mapLines g t) = (pieces t).mapIdx fun i piece => mapBody (g (i + 1)) piece := by
  apply pieces_stacked
  · simpa using pieces_ne_nil t
  · intro p hp
    obtain ⟨i, hi, rfl⟩ := List.mem_mapIdx.1 hp
    have hpiece := List.getElem?_eq_getElem hi
    exact newline_notMem_mapBody (newline_notMem_of_mem_pieces (List.getElem_mem hi)) (h i _ hpiece)

theorem lines_mapLines {g : Nat → Text → Text} {t : Text} (ht : (lines t).overlong = false)
    (hfits : (lines (mapLines g t)).overlong = false) (hnil : ∀ number, g number [] = [])
    (h : ∀ i line, (lines t).lines[i]? = some line → Replaces line (g (i + 1) line)) :
    (lines (mapLines g t)).lines = (lines t).lines.mapIdx fun i line => g (i + 1) line := by
  have hreplaces := forall_pieces_of_lines ht (fun i => by rw [hnil]; exact .refl []) h
  rw [lines_of_short (short_of_read hfits), lines_of_short (short_of_read ht), pieces_mapLines hreplaces]
  exact map_chomp_delivered_mapIdx hreplaces

end Text

namespace Token

/-- A text with tokens replaced, each pair being the token that comes next and the new one for it. What
stands between the tokens and after the last one is kept. -/
def substitute : List (Text × Text) → Text → Text
  | [], t => t
  | (old, new) :: rest, t =>
    t.takeWhile isBlank ++ new ++ substitute rest ((t.dropWhile isBlank).drop old.length)

def replace (new : List Text) (line : Text) : Text := substitute ((ofLine line).zip new) line

/-- A word that can stand anywhere: no byte of it has a meaning of its own. -/
structure Plain (w : Text) : Prop where
  ne_nil : w ≠ []
  plain : w.all isPlain = true

def Keeps (old new : Text) : Prop := new = old ∨ (Plain old ∧ Plain new)

theorem Plain.isRun {w : Text} (h : Plain w) : isRun w = true := isRun_of_plain h.plain

theorem Plain.replaces {old new : Text} (hold : Plain old) (hnew : Plain new) : Text.Replaces old new where
  mem := fun b hb => .inr (List.all_eq_true.1 hnew.plain b hb)
  eq_nil_iff := by simp [hold.ne_nil, hnew.ne_nil]
  ends := by
    intro hlast
    have hmem := List.mem_of_getLast? hlast
    exact absurd (isPlain_iff.1 (List.all_eq_true.1 hnew.plain _ hmem)).2.1 (by decide)

theorem Keeps.replaces {old new : Text} (h : Keeps old new) : Text.Replaces old new := by
  rcases h with rfl | ⟨hold, hnew⟩
  · exact .refl new
  · exact hold.replaces hnew

theorem Keeps.eq_of_mem {old new : Text} (h : Keeps old new) {b : UInt8} (hb : b ∈ old)
    (hplain : isPlain b = false) : new = old := by
  rcases h with rfl | ⟨hold, -⟩
  · rfl
  · have := List.all_eq_true.1 hold.plain b hb
    rw [hplain] at this
    contradiction

theorem stops_expressionStart (t : Text) : stops (expressionStart ++ t) = true := by
  change (isSeparator dollar || isBlank dollar || expressionStart.isPrefixOf (expressionStart ++ t)) = true
  rw [List.isPrefixOf_iff_prefix.2 (List.prefix_append expressionStart t), Bool.or_true]

theorem substitute_blank {b : UInt8} (hb : isBlank b = true) (pairs : List (Text × Text)) (t : Text) :
    substitute pairs (b :: t) = b :: substitute pairs t := by
  cases pairs with
  | nil => rfl
  | cons pair rest => simp [substitute, hb]

theorem substitute_token {old : Text} (hold : ∃ b rest, old = b :: rest ∧ isBlank b = false) (new : Text)
    {pairs : List (Text × Text)} {t after u : Text} (h : substitute pairs (t ++ after) = u ++ after) :
    substitute ((old, new) :: pairs) (old ++ t ++ after) = new ++ u ++ after := by
  obtain ⟨b, rest, rfl, hb⟩ := hold
  simp [substitute, hb, h]

/-- The tokens of a text are replaced one by one. Between them and behind the last one nothing changes, so
that no two of them run together. -/
theorem Lexed.exists_substitute {t : Text} {tokens new : List Text} (h : Lexed t tokens)
    (hkeeps : List.Forall₂ Keeps tokens new) (after : Text) :
    ∃ u, substitute (tokens.zip new) (t ++ after) = u ++ after ∧ Lexed u new ∧ Text.Replaces t u ∧
      (stops t = true → stops u = true) := by
  induction h generalizing new with
  | nil =>
    cases hkeeps
    exact ⟨[], rfl, .nil, .refl [], id⟩
  | @blank b t tokens hb _ ih =>
    obtain ⟨u, hu, hlexed, hreplaces, -⟩ := ih hkeeps
    refine ⟨b :: u, ?_, .blank hb hlexed, (Text.Replaces.refl [b]).append hreplaces, fun _ => ?_⟩
    · rw [List.cons_append, substitute_blank hb, hu]
      rfl
    · rw [stops, hb, Bool.or_true, Bool.true_or]
  | @separator b t tokens hb _ ih =>
    cases hkeeps with
    | cons hfirst hrest =>
      obtain rfl := hfirst.eq_of_mem (List.mem_singleton_self b) (by simp [isPlain, hb])
      obtain ⟨u, hu, hlexed, hreplaces, -⟩ := ih hrest
      have hstep := substitute_token ⟨b, [], rfl, isBlank_of_isSeparator hb⟩ [b] hu
      refine ⟨b :: u, hstep, .separator hb hlexed, (Text.Replaces.refl [b]).append hreplaces, fun _ => ?_⟩
      rw [stops, hb, Bool.true_or, Bool.true_or]
  | @expression inner t tokens hcloses _ ih =>
    cases hkeeps with
    | cons hfirst hrest =>
      obtain rfl := hfirst.eq_of_mem (List.mem_cons_self ..) (show isPlain dollar = false by decide)
      obtain ⟨u, hu, hlexed, hreplaces, -⟩ := ih hrest
      have hstep := substitute_token ⟨dollar, openParen :: inner, rfl, by decide⟩ (expressionStart ++ inner) hu
      refine ⟨_, hstep, .expression hcloses hlexed, (Text.Replaces.refl _).append hreplaces, fun _ => ?_⟩
      exact stops_expressionStart (inner ++ u)
  | @unclosed inner hopen =>
    cases hkeeps with
    | cons hfirst hrest =>
      cases hrest
      obtain rfl := hfirst.eq_of_mem (List.mem_cons_self ..) (show isPlain dollar = false by decide)
      have hstep := substitute_token ⟨dollar, openParen :: inner, rfl, by decide⟩ (expressionStart ++ inner)
        (show substitute [] ([] ++ after) = [] ++ after from rfl)
      simp only [List.append_nil] at hstep
      exact ⟨_, hstep, .unclosed hopen, .refl _, id⟩
  | @word w t tokens hne hrun hstops _ ih =>
    cases hkeeps with
    | @cons _ n _ news hfirst hrest =>
      obtain ⟨u, hu, hlexed, hreplaces, hends⟩ := ih hrest
      obtain ⟨b, rest, rfl⟩ := List.exists_cons_of_ne_nil hne
      have hgoes : stops (b :: rest) = false := by
        simpa using (Bool.and_eq_true_iff.1 hrun).1
      have hblank : isBlank b = false := by
        simp only [stops, Bool.or_eq_false_iff] at hgoes
        exact hgoes.1.2
      have hstep := substitute_token ⟨b, rest, rfl, hblank⟩ n hu
      -- What followed the old word ended it, and what follows the new one begins alike.
      have hlexed' : Lexed (n ++ u) (n :: news) := by
        rcases hfirst with rfl | ⟨-, hplain⟩
        · exact .word hne hrun (hends hstops) hlexed
        · exact .word hplain.ne_nil hplain.isRun (hends hstops) hlexed
      refine ⟨n ++ u, hstep, hlexed', hfirst.replaces.append hreplaces, fun hnow => ?_⟩
      rw [List.cons_append, stops_cons_append b rest hstops, hgoes] at hnow
      contradiction

theorem replace_nil (new : List Text) : replace new [] = [] := by
  have htokens : ofLine [] = [] := tokensFrom_eq_iff.2 .nil
  rw [replace, htokens, List.zip_nil_left, substitute]

theorem ofLine_replace {line : Text} {new : List Text} (h : List.Forall₂ Keeps (ofLine line) new) :
    ofLine (replace new line) = new ∧ Text.Replaces line (replace new line) := by
  have hline : Text.before Text.semicolon line ++ line.dropWhile (· != Text.semicolon) = line :=
    List.takeWhile_append_dropWhile
  have hbody : ∀ b ∈ Text.before Text.semicolon line, (b != Text.semicolon) = true :=
    fun b hb => List.mem_takeWhile_imp (p := fun b => b != Text.semicolon) hb
  have hcomment : (line.dropWhile (· != Text.semicolon)).takeWhile (· != Text.semicolon) = [] :=
    List.takeWhile_eq_nil_iff.2 (List.dropWhile_get_zero_not _ line)
  obtain ⟨u, hu, hnew, hreplaces, -⟩ :=
    (lexed_ofLine line).exists_substitute h (line.dropWhile (· != Text.semicolon))
  rw [hline] at hu
  -- No new token starts a comment, so that the old one still does, if there is one.
  have hfree : Text.semicolon ∉ u := by
    apply hreplaces.notMem (by decide)
    intro hmem
    simpa using hbody _ hmem
  have hbefore : Text.before Text.semicolon (replace new line) = u := by
    rw [replace, hu, Text.before, List.takeWhile_append_of_pos, hcomment, List.append_nil]
    intro b hb
    simpa using ne_of_mem_of_not_mem hb hfree
  constructor
  · rw [ofLine, hbefore]
    exact tokensFrom_eq_iff.2 hnew
  · rw [replace, hu]
    nth_rewrite 1 [← hline]
    exact hreplaces.append (.refl _)

def rewrite (f : Nat → List Text → List Text) (t : Text) : Text :=
  Text.mapLines (fun number line => replace (f number (ofLine line)) line) t

theorem map_ofLine_rewrite {f : Nat → List Text → List Text} {t : Text}
    (ht : (Text.lines t).overlong = false) (hfits : (Text.lines (rewrite f t)).overlong = false)
    (h : ∀ i row, ((Text.lines t).lines.map ofLine)[i]? = some row → List.Forall₂ Keeps row (f (i + 1) row)) :
    (Text.lines (rewrite f t)).lines.map ofLine =
      ((Text.lines t).lines.map ofLine).mapIdx fun i row => f (i + 1) row := by
  have hreplace : ∀ i line, (Text.lines t).lines[i]? = some line →
      ofLine (replace (f (i + 1) (ofLine line)) line) = f (i + 1) (ofLine line) ∧
        Text.Replaces line (replace (f (i + 1) (ofLine line)) line) := by
    intro i line hline
    apply ofLine_replace
    apply h
    rw [List.getElem?_map, hline, Option.map_some]
  have hlines := Text.lines_mapLines ht hfits (fun number => replace_nil _) fun i line hline =>
    (hreplace i line hline).2
  rw [rewrite, hlines]
  apply List.ext_getElem?
  intro i
  rw [List.getElem?_map, List.getElem?_mapIdx, List.getElem?_mapIdx, List.getElem?_map]
  cases hline : (Text.lines t).lines[i]? with
  | none => rfl
  | some line => exact congrArg some (hreplace i line hline).1

end Token

namespace Text

def insertLine (n : Nat) (line t : Text) : Text := stacked ((pieces t).insertIdx n line)

theorem insertIdx_ne_nil {ps : List Text} (h : ps ≠ []) (n : Nat) (line : Text) : ps.insertIdx n line ≠ [] := by
  have hpos := List.length_pos_iff.2 h
  exact List.ne_nil_of_length_pos (Nat.lt_of_lt_of_le hpos List.length_le_length_insertIdx)

theorem delivered_insertIdx {ps : List Text} (hne : ps ≠ []) {n : Nat} (hn : n ≤ (delivered ps).length)
    (line : Text) :
    delivered (ps.insertIdx n line) = (delivered ps).insertIdx n line ∨
      (line = [] ∧ n = (delivered ps).length ∧ delivered (ps.insertIdx n line) = delivered ps) := by
  induction ps generalizing n with
  | nil => contradiction
  | cons p rest ih =>
    cases n with
    | zero =>
      rw [List.insertIdx_zero, List.insertIdx_zero, delivered_cons (List.cons_ne_nil p rest)]
      exact .inl rfl
    | succ n =>
      rw [List.insertIdx_succ_cons]
      by_cases hrest : rest = []
      · subst hrest
        by_cases hp : p = []
        · simp [delivered, hp] at hn
        · obtain rfl : n = 0 := by simpa [delivered, hp] using hn
          by_cases hline : line = []
          · exact .inr ⟨hline, by simp [delivered, hp], by simp [delivered, hp, hline]⟩
          · exact .inl (by simp [delivered, hp, hline])
      · rw [delivered_cons hrest] at hn ⊢
        rw [delivered_cons (insertIdx_ne_nil hrest n line), List.insertIdx_succ_cons]
        rw [List.length_cons] at hn ⊢
        rcases ih hrest (Nat.le_of_succ_le_succ hn) with hsame | ⟨hline, hlast, hsame⟩
        · exact .inl (congrArg (p :: ·) hsame)
        · exact .inr ⟨hline, congrArg (· + 1) hlast, congrArg (p :: ·) hsame⟩

/-- A line that is put in is read where it was put, unless it is empty and stands after the last newline:
then it is no line at all. -/
theorem lines_insertLine {t line : Text} {n : Nat} (ht : (lines t).overlong = false)
    (hn : n ≤ (lines t).lines.length) (hnewline : newline ∉ line) (hlength : line.length < lineLimit) :
    lines (insertLine n line t) = ⟨(lines t).lines.insertIdx n (chomp line), false⟩ ∨
      (line = [] ∧ n = (lines t).lines.length ∧ lines (insertLine n line t) = lines t) := by
  have hread := lines_of_short (short_of_read ht)
  have hpieces : pieces (insertLine n line t) = (pieces t).insertIdx n line := by
    apply pieces_stacked
    · exact insertIdx_ne_nil (pieces_ne_nil t) n line
    · intro p hp
      rcases List.eq_or_mem_of_mem_insertIdx hp with rfl | hp
      · exact hnewline
      · exact newline_notMem_of_mem_pieces hp
  have hshort : ∀ p ∈ pieces (insertLine n line t), p.length < lineLimit := by
    rw [hpieces]
    intro p hp
    rcases List.eq_or_mem_of_mem_insertIdx hp with rfl | hp
    · exact hlength
    · exact short_of_read ht p hp
  rw [hread, List.length_map] at hn
  rw [lines_of_short hshort, hpieces, hread, List.length_map]
  rcases delivered_insertIdx (pieces_ne_nil t) hn line with hinsert | ⟨hline, hlast, hsame⟩
  · left
    rw [hinsert, List.map_insertIdx]
  · right
    exact ⟨hline, hlast, by rw [hsame]⟩

end Text
end Asm16

import Reckoner.Json.Reader
import Reckoner.Proofs.Json.Number
import Reckoner.Proofs.Json.Text

/-!
# JSON documents

A value whose numbers are regular is read back from what is written for it. The tokens of a value
are followed by those of what surrounds it, and no number runs into what comes next.
-/

namespace Reckoner.Json

inductive Regular : Json → Prop where
  | null : Regular null
  | bool (b : Bool) : Regular (bool b)
  | number {n : Numeral} (h : n.Regular) : Regular (number n)
  | string (s : Option String) : Regular (string s)
  | array {items : List Json} (h : ∀ j ∈ items, Regular j) : Regular (array items)
  | object {members : List (Option String × Json)} (h : ∀ m ∈ members, Regular m.2) :
    Regular (object members)

/-! ## Tokens -/

def Scans (cs : List Char) (tokens : List Token) (rest : List Char) : Prop :=
  ∀ fuel seen, cs.length ≤ fuel → ∃ fuel', rest.length ≤ fuel' ∧
    scanFrom fuel seen cs = scanFrom fuel' (tokens.reverse ++ seen) rest

namespace Scans

theorem nil (cs : List Char) : Scans cs [] cs := fun fuel _ h => ⟨fuel, h, rfl⟩

theorem append {cs ds rest : List Char} {ts us : List Token} (h : Scans cs ts ds)
    (h' : Scans ds us rest) : Scans cs (ts ++ us) rest := by
  intro fuel seen hf
  obtain ⟨fuel', hf', e⟩ := h fuel seen hf
  obtain ⟨fuel'', hf'', e'⟩ := h' fuel' (ts.reverse ++ seen) hf'
  refine ⟨fuel'', hf'', ?_⟩
  rw [e, e', List.reverse_append, List.append_assoc]

theorem token {c : Char} {cs rest : List Char} {t : Token} (hc : isSpace c = false)
    (ht : token? (c :: cs) = some (t, rest)) (hr : rest.length ≤ cs.length) :
    Scans (c :: cs) [t] rest := by
  intro fuel seen hf
  cases fuel with
  | zero => simp at hf
  | succ fuel =>
    rw [List.length_cons] at hf
    refine ⟨fuel, by omega, ?_⟩
    rw [scanFrom, List.dropWhile_cons_of_neg (by simp [hc])]
    simp only [ht]
    rfl

theorem cons {c : Char} {cs ds rest : List Char} {t : Token} {ts : List Token}
    (hc : isSpace c = false) (ht : token? (c :: cs) = some (t, ds)) (hr : ds.length ≤ cs.length)
    (h : Scans ds ts rest) :
    Scans (c :: cs) (t :: ts) rest := (token hc ht hr).append h

theorem quote (s : Option String) (rest : List Char) :
    Scans (quote s ++ rest) [.string s] rest := by
  have ht := token?_quote s rest
  have hq : ∃ cs, Json.quote s = '"' :: cs := by cases s <;> exact ⟨_, rfl⟩
  obtain ⟨cs, hq⟩ := hq
  rw [hq] at ht ⊢
  exact token rfl ht (by simp)

theorem label (name : Option String) {cs rest : List Char} {ts : List Token}
    (h : Scans cs ts rest) :
    Scans (Json.quote name ++ ':' :: cs) (.string name :: .colon :: ts) rest :=
  (quote name _).append (cons rfl rfl (Nat.le_refl _) h)

theorem number {n : Numeral} (h : n.Regular) {rest : List Char} (hr : EndsNumber rest) :
    Scans (n.text.toList ++ rest) [.number n] rest := by
  have ht := token?_number h hr
  obtain ⟨c, cs, hcs, hc⟩ := h.exists_text_eq_cons
  rw [hcs] at ht ⊢
  refine token ?_ ht (by simp)
  rcases hc with rfl | hd
  · rfl
  · by_contra hs
    simp only [isSpace, Bool.not_eq_false, Bool.or_eq_true, decide_eq_true_eq] at hs
    rcases hs with ((rfl | rfl) | rfl) | rfl <;> cases hd

end Scans

/-! ## Values -/

def Reads (j : Json) : Prop :=
  ∃ ts, (∀ rest, EndsNumber rest → Scans (j.chars ++ rest) ts rest) ∧
    ∀ outer, ts.foldlM Reading.step (.value outer) = some (.done j outer)

theorem endsNumber_itemChars (items : List Json) (rest : List Char) :
    EndsNumber (itemChars items ++ rest) := by
  intro c cs e
  cases items with
  | nil | cons =>
    cases e
    decide

theorem endsNumber_memberChars (members : List (Option String × Json)) (rest : List Char) :
    EndsNumber (memberChars members ++ rest) := by
  intro c cs e
  cases members with
  | nil | cons =>
    cases e
    decide

theorem foldlM_item {ts : List Token} {outer : List Frame} {v : Json} {outer' : List Frame}
    (h : ts.foldlM Reading.step (.value (.array [] :: outer)) = some (.done v outer')) :
    ts.foldlM Reading.step (.item outer) = some (.done v outer') := by
  cases ts with
  | nil => cases h
  | cons t ts =>
    -- no value begins with the end of an array
    have ht : t ≠ .closeArray := by
      rintro rfl
      cases h
    have hs : Reading.step (.item outer) t = Reading.step (.value (.array [] :: outer)) t := by
      cases t <;> first | rfl | exact absurd rfl ht
    rw [List.foldlM_cons, hs, ← List.foldlM_cons]
    exact h

theorem reads_itemChars {items : List Json} (h : ∀ j ∈ items, j.Reads) :
    ∃ ts, (∀ rest, Scans (itemChars items ++ rest) ts rest) ∧
      ∀ v seen outer, ts.foldlM Reading.step (.done v (.array seen :: outer)) =
        some (.done (.array (seen.reverse ++ v :: items)) outer) := by
  induction items with
  | nil =>
    refine ⟨[.closeArray], fun rest => .token rfl rfl (Nat.le_refl _), fun v seen outer => ?_⟩
    simp [Reading.step]
  | cons j items ih =>
    obtain ⟨ts, hscan, hread⟩ := h j (by simp)
    obtain ⟨us, hscan', hread'⟩ := ih fun i hi => h i (by simp [hi])
    refine ⟨.comma :: (ts ++ us), fun rest => ?_, fun v seen outer => ?_⟩
    · simp only [itemChars, List.cons_append, List.append_assoc]
      exact .cons rfl rfl (Nat.le_refl _)
        ((hscan _ (endsNumber_itemChars items rest)).append (hscan' rest))
    · rw [List.foldlM_cons]
      show (ts ++ us).foldlM Reading.step (.value (.array (v :: seen) :: outer)) = _
      rw [List.foldlM_append, hread]
      show us.foldlM Reading.step (.done j (.array (v :: seen) :: outer)) = _
      rw [hread']
      simp

theorem reads_memberChars {members : List (Option String × Json)} (h : ∀ m ∈ members, m.2.Reads) :
    ∃ ts, (∀ rest, Scans (memberChars members ++ rest) ts rest) ∧
      ∀ v name seen outer, ts.foldlM Reading.step (.done v (.object seen name :: outer)) =
        some (.done (.object (seen.reverse ++ (name, v) :: members)) outer) := by
  induction members with
  | nil =>
    refine ⟨[.closeObject], fun rest => .token rfl rfl (Nat.le_refl _), fun v name seen outer => ?_⟩
    simp [Reading.step]
  | cons m members ih =>
    obtain ⟨name, j⟩ := m
    obtain ⟨ts, hscan, hread⟩ := h (name, j) (by simp)
    obtain ⟨us, hscan', hread'⟩ := ih fun i hi => h i (by simp [hi])
    refine ⟨.comma :: .string name :: .colon :: (ts ++ us), fun rest =>
      ?_, fun v name' seen outer => ?_⟩
    · simp only [memberChars, List.cons_append, List.append_assoc]
      have hvalue := (hscan _ (endsNumber_memberChars members rest)).append (hscan' rest)
      exact .cons rfl rfl (Nat.le_refl _) (.label name hvalue)
    · simp only [List.foldlM_cons]
      show (ts ++ us).foldlM Reading.step (.value (.object ((name', v) :: seen) name :: outer)) = _
      rw [List.foldlM_append, hread]
      show us.foldlM Reading.step (.done j (.object ((name', v) :: seen) name :: outer)) = _
      rw [hread']
      simp

theorem Regular.reads {j : Json} (h : j.Regular) : j.Reads := by
  induction h with
  | null => exact ⟨[.null], fun rest _ => .token rfl rfl (by simp; omega), fun _ => rfl⟩
  | bool b =>
    refine ⟨[.bool b], fun rest _ => ?_, fun _ => rfl⟩
    cases b <;> exact .token rfl rfl (by simp; omega)
  | @number n h => exact ⟨[.number n], fun rest hr => .number h hr, fun _ => rfl⟩
  | string s => exact ⟨[.string s], fun rest _ => .quote s rest, fun _ => rfl⟩
  | @array items _ ih =>
    cases items with
    | nil =>
      refine ⟨[.openArray, .closeArray], fun rest _ => ?_, fun _ => rfl⟩
      exact .cons rfl rfl (Nat.le_refl _) (.token rfl rfl (Nat.le_refl _))
    | cons j items =>
      obtain ⟨ts, hscan, hread⟩ := ih j (by simp)
      have hitems : ∀ i ∈ items, i.Reads := fun i hi => ih i (by simp [hi])
      obtain ⟨us, hscan', hread'⟩ := reads_itemChars hitems
      refine ⟨.openArray :: (ts ++ us), fun rest _ => ?_, fun outer => ?_⟩
      · simp only [chars, List.cons_append, List.append_assoc]
        exact .cons rfl rfl (Nat.le_refl _)
          ((hscan _ (endsNumber_itemChars items rest)).append (hscan' rest))
      · rw [List.foldlM_cons]
        show (ts ++ us).foldlM Reading.step (.item outer) = _
        rw [List.foldlM_append, foldlM_item (hread _)]
        exact hread' j [] outer
  | @object members _ ih =>
    cases members with
    | nil =>
      refine ⟨[.openObject, .closeObject], fun rest _ => ?_, fun _ => rfl⟩
      exact .cons rfl rfl (Nat.le_refl _) (.token rfl rfl (Nat.le_refl _))
    | cons m members =>
      obtain ⟨name, j⟩ := m
      obtain ⟨ts, hscan, hread⟩ := ih (name, j) (by simp)
      have hmembers : ∀ m ∈ members, m.2.Reads := fun m hm => ih m (by simp [hm])
      obtain ⟨us, hscan', hread'⟩ := reads_memberChars hmembers
      refine ⟨.openObject :: .string name :: .colon :: (ts ++ us), fun rest _ =>
        ?_, fun outer => ?_⟩
      · simp only [chars, List.cons_append, List.append_assoc]
        have hvalue := (hscan _ (endsNumber_memberChars members rest)).append (hscan' rest)
        exact .cons rfl rfl (Nat.le_refl _) (.label name hvalue)
      · simp only [List.foldlM_cons]
        show (ts ++ us).foldlM Reading.step (.value (.object [] name :: outer)) = _
        rw [List.foldlM_append, hread]
        exact hread' j name [] outer

theorem parse?_render {j : Json} (h : j.Regular) : parse? j.render = some j := by
  obtain ⟨ts, hscan, hread⟩ := h.reads
  have hs := hscan [] (by rintro _ _ ⟨⟩)
  rw [List.append_nil] at hs
  obtain ⟨fuel, -, hfuel⟩ := hs j.chars.length [] (Nat.le_refl _)
  have hend : scanFrom fuel (ts.reverse ++ []) [] = some ts := by cases fuel <;> simp [scanFrom]
  unfold parse? render
  rw [String.toList_ofList, scan, hfuel, hend]
  show ofTokens? ts = some j
  rw [ofTokens?, Reading.start, hread]
  rfl

end Reckoner.Json

import Reckoner.Formula.Parser
import Mathlib.Data.List.Basic

/-!
# Scanning

What one character does to the tokens: a mark ends an atom and is a token itself, white space ends
an atom, and every other character goes on with one. Where an atom ends, a text can be divided, and
its tokens are those of the parts.
-/

namespace Reckoner

def Token.IsPlain (c : Char) : Prop := ofChar? c = none ∧ Text.isBlank c = false
deriving Decidable

namespace Token

def marks : List Char := ['+', '-', '*', '/', '(', ')']

def IsBreak (c : Char) : Prop := c ∈ marks ∨ Text.isBlank c = true
deriving Decidable

theorem ofChar?_symbol (op : Operator) : ofChar? op.symbol = some (.op op) := by cases op <;> rfl

theorem of_ofChar?_eq_some {c : Char} {token : Token} (h : ofChar? c = some token) :
    (c = '(' ∧ token = openParen) ∨ (c = ')' ∧ token = closeParen) ∨ ∃ o :
    Operator, c = o.symbol ∧ token = op o := by
  unfold ofChar? at h
  split at h
  · cases h
    exact .inl ⟨rfl, rfl⟩
  · cases h
    exact .inr (.inl ⟨rfl, rfl⟩)
  · obtain ⟨o, ho, rfl⟩ := Option.map_eq_some_iff.1 h
    refine .inr (.inr ⟨o, ?_, rfl⟩)
    unfold Operator.ofChar? at ho
    split at ho <;> cases ho <;> rfl

theorem isBlank_of_ofChar? {c : Char} {token : Token} (h : ofChar? c = some token) :
    Text.isBlank c = false := by
  rcases of_ofChar?_eq_some h with ⟨rfl, -⟩ | ⟨rfl, -⟩ | ⟨o, rfl, -⟩
  · decide
  · decide
  · cases o <;> decide

theorem ofChar?_of_isBlank {c : Char} (h : Text.isBlank c = true) : ofChar? c = none := by
  cases hc : ofChar? c with
  | none => rfl
  | some token =>
    rw [isBlank_of_ofChar? hc] at h
    cases h

theorem text_of_ofChar? {c : Char} {token : Token} (h : ofChar? c = some token) :
    token.text = String.singleton c := by
  rcases of_ofChar?_eq_some h with ⟨rfl, rfl⟩ | ⟨rfl, rfl⟩ | ⟨o, rfl, rfl⟩ <;> rfl

theorem ne_atom_of_ofChar? {c : Char} {token : Token} (h : ofChar? c = some token) (word : String) :
    token ≠ atom word := by
  rcases of_ofChar?_eq_some h with ⟨-, rfl⟩ | ⟨-, rfl⟩ | ⟨o, -, rfl⟩ <;> simp

theorem exists_ofChar?_iff {c : Char} : (∃ token, ofChar? c = some token) ↔ c ∈ marks := by
  constructor
  · rintro ⟨token, h⟩
    rcases of_ofChar?_eq_some h with ⟨rfl, -⟩ | ⟨rfl, -⟩ | ⟨o, rfl, -⟩
    · decide
    · decide
    · cases o <;> decide
  · intro h
    simp only [marks, List.mem_cons, List.not_mem_nil, or_false] at h
    rcases h with rfl | rfl | rfl | rfl | rfl | rfl <;> exact ⟨_, rfl⟩

theorem isPlain_iff {c : Char} : IsPlain c ↔ ¬ IsBreak c := by
  rw [IsPlain, IsBreak, ← exists_ofChar?_iff, Option.eq_none_iff_forall_ne_some]
  simp

/-! ## Atoms -/

def EndsAtom (rest : List Char) : Prop := ∀ c cs, rest = c :: cs → ¬ IsPlain c

theorem endsAtom_iff {rest : List Char} : EndsAtom rest ↔ ∀ c ∈ rest.head?, IsBreak c := by
  cases rest with
  | nil => simp [EndsAtom]
  | cons c cs => simp [EndsAtom, isPlain_iff]

theorem consAtom_eq_nil {run : List Char} {rest : List Token} : consAtom run rest = [] ↔
    run = [] ∧ rest = [] := by
  cases run <;> simp [consAtom]

theorem consAtom_append (run : List Char) (ts us : List Token) :
    consAtom run (ts ++ us) = consAtom run ts ++ us := by
  cases run <;> simp [consAtom]

theorem scanFrom_eq_nil {cs : List Char} : ∀ {run : List Char},
    scanFrom run cs = [] ↔ run = [] ∧ cs.all Text.isBlank = true := by
  induction cs with
  | nil => simp [scanFrom, consAtom_eq_nil]
  | cons c cs ih =>
    intro run
    rw [scanFrom, List.all_cons, Bool.and_eq_true]
    cases hc : ofChar? c with
    | some token => simp [consAtom_eq_nil, isBlank_of_ofChar? hc]
    | none =>
      by_cases hb : Text.isBlank c = true
      · simp [hb, consAtom_eq_nil, ih]
      · simp [hb, ih]

theorem scanFrom_of_ofChar? {c : Char} {token : Token} (h : ofChar? c = some token)
    (cs : List Char) : scanFrom [] (c :: cs) = token :: scanFrom [] cs := by
  rw [scanFrom, h]
  rfl

theorem scanFrom_of_isBlank {c : Char} (h : Text.isBlank c = true) (cs : List Char) :
    scanFrom [] (c :: cs) = scanFrom [] cs := by
  rw [scanFrom, ofChar?_of_isBlank h]
  simp [h, consAtom]

theorem scanFrom_plain {cs : List Char} (h : ∀ c ∈ cs, IsPlain c) : ∀ (run rest : List Char),
    scanFrom run (cs ++ rest) = scanFrom (cs.reverse ++ run) rest := by
  induction cs with
  | nil => exact fun _ _ => rfl
  | cons c cs ih =>
    intro run rest
    obtain ⟨htoken, hblank⟩ := h c (by simp)
    rw [List.cons_append, scanFrom, htoken]
    simp [hblank, ih fun d hd => h d (by simp [hd])]

theorem scanFrom_of_endsAtom {rest : List Char} (h : EndsAtom rest) (run : List Char) :
    scanFrom run rest = consAtom run (scanFrom [] rest) := by
  cases rest with
  | nil => rfl
  | cons c cs =>
    have hc := h c cs rfl
    unfold scanFrom
    cases htoken : ofChar? c with
    | some token => rfl
    | none =>
      cases hblank : Text.isBlank c with
      | true => simp [consAtom]
      | false => exact absurd ⟨htoken, hblank⟩ hc

theorem scanFrom_atom {cs rest : List Char} (hne : cs ≠ []) (h : ∀ c ∈ cs, IsPlain c)
    (hr : EndsAtom rest) :
    scanFrom [] (cs ++ rest) = atom (String.ofList cs) :: scanFrom [] rest := by
  rw [scanFrom_plain h, scanFrom_of_endsAtom hr]
  simp [consAtom, hne]

/-! ## Division of texts -/

theorem scanFrom_append {ys : List Char} (h : EndsAtom ys) : ∀ (xs run : List Char),
    scanFrom run (xs ++ ys) = scanFrom run xs ++ scanFrom [] ys := by
  intro xs
  induction xs with
  | nil =>
    intro run
    rw [List.nil_append, scanFrom_of_endsAtom h, scanFrom, ← consAtom_append, List.nil_append]
  | cons c cs ih =>
    intro run
    rw [List.cons_append, scanFrom, scanFrom]
    cases hc : ofChar? c with
    | some token => simp only [ih, ← consAtom_append, List.cons_append]
    | none =>
      by_cases hb : Text.isBlank c = true
      · simp only [hb, if_true, ih, ← consAtom_append]
      · simp only [hb, if_false, Bool.false_eq_true, ih]

theorem scanFrom_cons_of_isBreak {c : Char} (h : IsBreak c) (cs : List Char) :
    scanFrom [] (c :: cs) = scanFrom [] [c] ++ scanFrom [] cs := by
  rcases h with h | h
  · obtain ⟨token, ht⟩ := exists_ofChar?_iff.2 h
    rw [scanFrom_of_ofChar? ht, scanFrom_of_ofChar? ht]
    rfl
  · rw [scanFrom_of_isBlank h, scanFrom_of_isBlank h]
    rfl

theorem scanFrom_append_of_isBreak {xs : List Char} (h : ∀ c ∈ xs.getLast?, IsBreak c)
    (ys : List Char) : scanFrom [] (xs ++ ys) = scanFrom [] xs ++ scanFrom [] ys := by
  rcases List.eq_nil_or_concat xs with rfl | ⟨init, c, rfl⟩
  · rfl
  · have hc : IsBreak c := h c (by simp)
    have hends : ∀ cs, EndsAtom (c :: cs) := fun cs => endsAtom_iff.2 (by simpa using hc)
    rw [List.concat_eq_append, List.append_assoc, List.singleton_append, scanFrom_append (hends ys),
      scanFrom_append (hends []), scanFrom_cons_of_isBreak hc ys, List.append_assoc]

/-- White space beside the end of the text, a mark or other white space makes no difference. -/
theorem scanFrom_append_blank {xs bs ys : List Char} (hb : bs.all Text.isBlank = true)
    (h : (∀ c ∈ xs.getLast?, IsBreak c) ∨ ∀ c ∈ ys.head?, IsBreak c) :
    scanFrom [] (xs ++ bs ++ ys) = scanFrom [] (xs ++ ys) := by
  have hbreak : ∀ c ∈ bs, IsBreak c := fun c hc => .inr (List.all_eq_true.1 hb c hc)
  have hhead : EndsAtom bs := endsAtom_iff.2 fun c hc => hbreak c (List.mem_of_mem_head? hc)
  have hlast : ∀ c ∈ bs.getLast?, IsBreak c := fun c hc => hbreak c (List.mem_of_mem_getLast? hc)
  have hnil : scanFrom [] bs = [] := scanFrom_eq_nil.2 ⟨rfl, hb⟩
  rcases h with h | h
  · rw [List.append_assoc, scanFrom_append_of_isBreak h, scanFrom_append_of_isBreak hlast, hnil,
      List.nil_append,
      scanFrom_append_of_isBreak h]
  · have hy : EndsAtom ys := endsAtom_iff.2 h
    rw [scanFrom_append hy, scanFrom_append hhead, hnil, List.append_nil, scanFrom_append hy]

end Token

end Reckoner

import Reckoner.Formula.Parser

/-!
# The grammar of formulas

A formula is read from a text exactly when the grammar derives it from the tokens of the text. The
grammar puts the repetitions to the left: what stands before the last operator of a row is a row.
-/

namespace Reckoner.Formula

inductive Category where
  | expression
  | term
  | factor

/-- `Derives c tokens a`: the tokens, all of them, are a `c` with the tree `a`. -/
inductive Derives : Category → List Token → Formula → Prop where
  | term {ts a} (h : Derives .term ts a) : Derives .expression ts a
  | sum {ls rs op a b} (left : Derives .expression ls a) (additive : op.isMultiplicative = false)
      (right : Derives .term rs b) : Derives .expression (ls ++ .op op :: rs) (.binary op a b)
  | factor {ts a} (h : Derives .factor ts a) : Derives .term ts a
  | product {ls rs op a b} (left : Derives .term ls a) (multiplicative : op.isMultiplicative = true)
      (right : Derives .factor rs b) : Derives .term (ls ++ .op op :: rs) (.binary op a b)
  | number {text v} (h : number? text = some v) : Derives .factor [.atom text] (.number v)
  | parens {ts a} (h : Derives .expression ts a) :
    Derives .factor (.openParen :: ts ++ [.closeParen]) a

theorem Derives.ne_nil {c : Category} {ts : List Token} {a : Formula} (h : Derives c ts a) :
    ts ≠ [] := by
  induction h with
  | term _ ih | factor _ ih => exact ih
  | sum | product | number | parens => simp

/-! ## What is derived is read -/

def Category.Reads (ts : List Token) (a : Formula) : Category → Prop
  | .expression => ∀ outer, ∃ x level, ts.foldlM Reading.step (.operand .start outer) =
      .ok (.operator x level outer) ∧ level.total x = a
  | .term => ∀ sum outer, ∃ x product, ts.foldlM Reading.step (.operand ⟨sum, none⟩ outer) =
      .ok (.operator x ⟨sum, product⟩ outer) ∧ Level.factor ⟨sum, product⟩ x = a
  | .factor => ∀ level outer, ts.foldlM Reading.step (.operand level outer) =
    .ok (.operator a level outer)

theorem foldlM_step_append {r r' : Reading} {ts : List Token}
    (h : ts.foldlM Reading.step r = .ok r') (us : List Token) :
    (ts ++ us).foldlM Reading.step r = us.foldlM Reading.step r' := by
  rw [List.foldlM_append, h]
  rfl

theorem foldlM_step_op {r : Reading} {ts : List Token} {x : Formula} {level : Level}
    {outer : List Level} (h : ts.foldlM Reading.step r = .ok (.operator x level outer))
    (op : Operator) (us : List Token) :
    (ts ++ .op op :: us).foldlM Reading.step r =
      us.foldlM Reading.step (.operand (level.push x op) outer) :=
  foldlM_step_append h _

theorem Derives.reads {c : Category} {ts : List Token} {a : Formula} (h : Derives c ts a) :
    c.Reads ts a := by
  induction h with
  | term _ ih =>
    intro outer
    obtain ⟨x, product, hr, hx⟩ := ih none outer
    exact ⟨x, ⟨none, product⟩, hr, hx⟩
  | @sum ls rs op a b _ additive _ ihl ihr =>
    intro outer
    obtain ⟨x, level, hl, rfl⟩ := ihl outer
    have hp : level.push x op = ⟨some ⟨level.total x, op⟩, none⟩ := by simp [Level.push, additive]
    obtain ⟨y, product, hr, rfl⟩ := ihr (some ⟨level.total x, op⟩) outer
    refine ⟨y, ⟨some ⟨level.total x, op⟩, product⟩, ?_, rfl⟩
    rw [foldlM_step_op hl, hp]
    exact hr
  | factor _ ih => exact fun sum outer => ⟨_, none, ih ⟨sum, none⟩ outer, rfl⟩
  | @product ls rs op a b _ multiplicative _ ihl ihr =>
    intro sum outer
    obtain ⟨x, product, hl, rfl⟩ := ihl sum outer
    have hp : Level.push ⟨sum, product⟩ x op = ⟨sum, some ⟨Level.factor ⟨sum, product⟩ x, op⟩⟩ := by
      simp [Level.push, multiplicative]
    refine ⟨b, some ⟨Level.factor ⟨sum, product⟩ x, op⟩, ?_, rfl⟩
    rw [foldlM_step_op hl, hp]
    exact ihr _ outer
  | @number text v h =>
    intro level outer
    simp only [List.foldlM_cons, List.foldlM_nil, Reading.step, h]
    rfl
  | @parens ts a _ ih =>
    intro level outer
    obtain ⟨x, inner, hr, rfl⟩ := ih (level :: outer)
    calc (Token.openParen :: ts ++ [Token.closeParen]).foldlM Reading.step (.operand level outer)
        = (ts ++ [Token.closeParen]).foldlM Reading.step (.operand .start (level :: outer)) := rfl
      _ = [Token.closeParen].foldlM Reading.step (.operator x inner (level :: outer)) :=
        foldlM_step_append hr _
      _ = .ok (.operator (inner.total x) level outer) := rfl

/-! ## What is read is derived -/

inductive Waiting.Spans (c : Category) (multiplicative : Bool) : Option Waiting → List Token →
    Prop where
  | none : Spans c multiplicative none []
  | some {w : Waiting} {ts} (left : Derives c ts w.left)
    (rank : w.op.isMultiplicative = multiplicative) :
      Spans c multiplicative (some w) (ts ++ [.op w.op])

inductive Level.Spans (level : Level) : List Token → Prop where
  | mk {ss ps} (sum : Waiting.Spans .expression false level.sum ss)
      (product : Waiting.Spans .term true level.product ps) :
      Spans level (ss ++ ps)

namespace Level.Spans

theorem start : Level.start.Spans [] := (mk .none .none : Level.start.Spans ([] ++ []))

variable {level : Level} {ts us : List Token} {x : Formula}

theorem term_factor {ps : List Token} (product : Waiting.Spans .term true level.product ps)
    (hx : Derives .factor us x) : Derives .term (ps ++ us) (level.factor x) := by
  unfold Level.factor
  generalize level.product = p at product
  cases product with
  | none => exact .factor hx
  | some left rank =>
    rw [List.append_assoc]
    exact .product left rank hx

theorem expression_total (h : level.Spans ts) (hx : Derives .factor us x) :
    Derives .expression (ts ++ us) (level.total x) := by
  obtain ⟨sum, product⟩ := h
  have hf := term_factor product hx
  unfold Level.total
  generalize level.sum = s at sum
  cases sum with
  | none => exact .term hf
  | some left rank =>
    simp only [List.append_assoc]
    exact .sum left rank hf

theorem push (h : level.Spans ts) (hx : Derives .factor us x) (op : Operator) :
    (level.push x op).Spans (ts ++ us ++ [.op op]) := by
  by_cases ho : op.isMultiplicative = true
  · obtain ⟨sum, product⟩ := h
    have hp : level.push x op = ⟨level.sum, some ⟨level.factor x, op⟩⟩ := if_pos ho
    rw [hp]
    simp only [List.append_assoc]
    have ht := Waiting.Spans.some (w := ⟨level.factor x, op⟩) (term_factor product hx) ho
    rw [List.append_assoc] at ht
    exact .mk sum ht
  · have hp : level.push x op = ⟨some ⟨level.total x, op⟩, none⟩ := if_neg ho
    have hs := Waiting.Spans.some (w := ⟨level.total x, op⟩) (h.expression_total hx)
        (Bool.eq_false_iff.mpr ho)
    rw [hp, ← List.append_nil (ts ++ us ++ [Token.op op])]
    exact .mk hs .none

end Level.Spans

/-- The tokens up to the innermost open parenthesis, that one included. -/
inductive Around : List Level → List Token → Prop where
  | nil : Around [] []
  | cons {level outer ts us} (rest : Around outer ts) (h : level.Spans us) :
      Around (level :: outer) (ts ++ us ++ [.openParen])

inductive Reading.Spans : Reading → List Token → Prop where
  | operand {level outer ts us} (around : Around outer ts) (h : level.Spans us) :
      Spans (.operand level outer) (ts ++ us)
  | operator {x level outer ts us vs} (around : Around outer ts) (h : level.Spans us)
    (hx : Derives .factor vs x) :
      Spans (.operator x level outer) (ts ++ us ++ vs)

namespace Reading.Spans

theorem start : Reading.start.Spans [] := .operand .nil .start

variable {r r' : Reading} {ts : List Token}

theorem step (h : r.Spans ts) {t : Token} (hs : r.step t = .ok r') : r'.Spans (ts ++ [t]) := by
  cases h with
  | @operand level outer ts us around h =>
    cases t with
    | openParen =>
      cases hs
      have := operand (.cons around h) .start
      rwa [List.append_nil] at this
    | atom text =>
      cases hn : number? text with
      | some v =>
        simp only [Reading.step, hn] at hs
        cases hs
        exact operator around h (.number hn)
      | none => simp [Reading.step, hn] at hs
    | op | closeParen => simp [Reading.step] at hs
  | @operator x level outer ts us vs around h hx =>
    cases t with
    | op o =>
      cases hs
      have := operand around (h.push hx o)
      rwa [← List.append_assoc, ← List.append_assoc] at this
    | closeParen =>
      -- the tokens since the open parenthesis become one factor of the level around it
      cases around with
      | nil => simp [Reading.step] at hs
      | cons rest h' =>
        cases hs
        have := operator rest h' (.parens (h.expression_total hx))
        simpa only [List.append_assoc, List.cons_append, List.nil_append] using this
    | openParen | atom => cases outer <;> simp [Reading.step] at hs

theorem foldlM (h : r.Spans ts) {us : List Token} (hr : us.foldlM Reading.step r = .ok r') :
    r'.Spans (ts ++ us) := by
  induction us generalizing r ts with
  | nil =>
    cases hr
    rwa [List.append_nil]
  | cons t us ih =>
    rw [List.foldlM_cons] at hr
    cases hs : r.step t with
    | error e =>
      rw [hs] at hr
      cases hr
    | ok q =>
      rw [hs] at hr
      have := ih (h.step hs) hr
      rwa [List.append_assoc, List.singleton_append] at this

theorem finish (h : r.Spans ts) {a : Formula} (hf : r.finish = .ok a) :
    Derives .expression ts a := by
  cases h with
  | operand => simp [Reading.finish] at hf
  | operator around h hx =>
    cases around with
    | nil =>
      cases hf
      exact h.expression_total hx
    | cons => simp [Reading.finish] at hf

end Reading.Spans

/-! ## The parser -/

theorem ofTokens_eq_ok_iff {ts : List Token} {a : Formula} : ofTokens ts = .ok a ↔
    Derives .expression ts a := by
  constructor
  · intro h
    unfold ofTokens at h
    split at h
    · cases h
    · cases hr : ts.foldlM Reading.step Reading.start with
      | error e =>
        rw [hr] at h
        cases h
      | ok r =>
        rw [hr] at h
        exact (Reading.Spans.start.foldlM hr).finish h
  · intro h
    obtain ⟨x, level, hr, rfl⟩ := h.reads []
    have hne : ts.isEmpty = false := by simpa using h.ne_nil
    unfold ofTokens
    rw [hne, Reading.start, hr]
    rfl

/--
The parser accepts the texts whose tokens are an expression, with its tree, and no tokens have two
trees.
-/
theorem parse_eq_ok_iff_derives :
    (∀ text a, parse text = .ok a ↔ Derives .expression (Token.scan text) a) ∧
    ∀ ts a b, Derives .expression ts a → Derives .expression ts b → a = b := by
  refine ⟨fun text a => ofTokens_eq_ok_iff, fun ts a b ha hb => ?_⟩
  have := (ofTokens_eq_ok_iff.mpr ha).symm.trans (ofTokens_eq_ok_iff.mpr hb)
  exact Except.ok.inj this

/-- `8-4-2` is a difference of a difference and a number, and not the other way round. -/
theorem parse_eq_ok_iff_derives_of_differences :
    Derives .expression (Token.scan "8-4-2")
      (.binary .sub (.binary .sub (.number 8.0) (.number 4.0)) (.number 2.0)) ∧
    ¬ Derives .expression (Token.scan "8-4-2")
      (.binary .sub (.number 8.0) (.binary .sub (.number 4.0) (.number 2.0))) := by
  have h := (parse_eq_ok_iff_derives.1 "8-4-2"
    (.binary .sub (.binary .sub (.number 8.0) (.number 4.0)) (.number 2.0))).mp rfl
  refine ⟨h, fun h' => ?_⟩
  have := parse_eq_ok_iff_derives.2 _ _ _ h h'
  cases this

end Reckoner.Formula

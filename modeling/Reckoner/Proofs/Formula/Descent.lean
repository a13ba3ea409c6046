import Reckoner.Formula.Parser

/-!
# Descent by rank

Reading a formula with a stack of open levels comes to the same as a recursive descent through sums,
products and factors, error for error. The descent goes on behind a row only where no operator of
the row can follow, so what the stack still holds open there can be closed.
-/

namespace Reckoner.Formula

def Reading.run (r : Reading) (tokens : List Token) : Except SyntaxError Formula :=
  tokens.foldlM Reading.step r >>= Reading.finish

theorem Reading.run_cons (r : Reading) (t : Token) (ts : List Token) :
    r.run (t :: ts) = (r.step t).bind fun r' => r'.run ts := by
  rw [run, List.foldlM_cons]
  cases r.step t <;> rfl

theorem ofTokens_eq_run {tokens : List Token} (h : tokens ≠ []) :
    ofTokens tokens = Reading.start.run tokens := by
  rw [ofTokens, if_neg (by simpa using h)]
  rfl

/-! ## The descent -/

namespace Descent

abbrev Read (p : List Token → Prop) :=
  Except SyntaxError (Formula × { rest : List Token // p rest })

def Read.weaken {p q : List Token → Prop} (r : Read p) (h : ∀ ts, p ts → q ts) : Read q :=
  r.map fun x => (x.1, ⟨x.2.1, h _ x.2.2⟩)

mutual

/--
Operands that operators of one rank join, grouped to the left: a product of factors, or a sum of
products.
-/
def row (multiplicative : Bool) (ts : List Token) : Read (·.length < ts.length) :=
  (operand multiplicative ts).bind fun (left, ⟨rest, h⟩) =>
    Read.weaken (more multiplicative left rest) fun _ h' => Nat.lt_of_le_of_lt h' h
termination_by (ts.length, 2 * (!multiplicative).toNat + 2)

def operand (multiplicative : Bool) (ts : List Token) : Read (·.length < ts.length) :=
  match multiplicative with
  | true => factor ts
  | false => row true ts
termination_by (ts.length, 2 * (!multiplicative).toNat + 1)

def more (multiplicative : Bool) (left : Formula) (ts : List Token) : Read (·.length ≤ ts.length) :=
  match ts with
  | .op op :: ts =>
    if op.isMultiplicative = multiplicative then
      (operand multiplicative ts).bind fun (right, ⟨rest, h⟩) =>
        Read.weaken (more multiplicative (.binary op left right) rest)
          fun _ h' => Nat.le_succ_of_le (Nat.le_of_lt (Nat.lt_of_le_of_lt h' h))
    else .ok (left, ⟨.op op :: ts, Nat.le_refl _⟩)
  | ts => .ok (left, ⟨ts, Nat.le_refl _⟩)
termination_by (ts.length, 0)

def factor (ts : List Token) : Read (·.length < ts.length) :=
  match ts with
  | [] => .error .unexpectedEnd
  | .openParen :: ts =>
    (row false ts).bind fun
      | (inner, ⟨.closeParen :: rest, h⟩) =>
        .ok (inner, ⟨rest, Nat.lt_succ_of_lt (Nat.lt_of_succ_lt h)⟩)
      | _ => .error .missingClosingParen
  | .atom text :: ts =>
    match number? text with
    | some v => .ok (.number v, ⟨ts, Nat.lt_succ_self _⟩)
    | none => .error (.invalidToken text)
  | token :: _ => .error (.invalidToken token.text)
termination_by (ts.length, 0)

end

end Descent

def descend (tokens : List Token) : Except SyntaxError Formula :=
  if tokens.isEmpty then .error .empty
  else do
    match ← Descent.row false tokens with
    | (a, ⟨[], _⟩) => return a
    | (_, ⟨token :: _, _⟩) => .error (.unexpectedToken token.text)


/-! ## The descent and the stack -/

def Ends (multiplicative : Bool) (ts : List Token) : Prop :=
  ∀ op rest, ts = .op op :: rest → multiplicative = true ∧ op.isMultiplicative = false

def Level.Fits (level : Level) (multiplicative : Bool) : Prop :=
  level.product = none ∧ (multiplicative = false → level.sum = none)

def resume {p : List Token → Prop} (level : Level) (outer : List Level)
    (x : Formula × { rest // p rest }) : Except SyntaxError Formula :=
  Reading.run (.operator x.1 level outer) x.2.1

/--
Two ways to hold what stands before the next token, when neither it nor the end tells them apart.
-/
theorem run_congr {x y : Formula} {level level' : Level} (outer : List Level) {ts : List Token}
    (total : level.total x = level'.total y)
    (push : ∀ op rest, ts = .op op :: rest → level.push x op = level'.push y op) :
    Reading.run (.operator x level outer) ts = Reading.run (.operator y level' outer) ts := by
  cases ts with
  | nil => cases outer with
    | nil => exact congrArg Except.ok total
    | cons => rfl
  | cons t rest =>
    rw [Reading.run_cons, Reading.run_cons]
    cases t with
    | op op => rw [Reading.step, Reading.step, push op rest rfl]
    | closeParen => cases outer with
      | nil => rfl
      | cons next outer => rw [Reading.step, Reading.step, total]
    | openParen | atom => cases outer <;> rfl

theorem run_factor (x : Formula) (level : Level) (outer : List Level) (ts : List Token) :
    Reading.run (.operator x level outer) ts =
      Reading.run (.operator (level.factor x) ⟨level.sum, none⟩ outer) ts :=
  run_congr outer rfl fun op _ _ => by cases op <;> rfl

theorem run_total (x : Formula) (level : Level) (outer : List Level) {ts : List Token}
    (h : Ends true ts) :
    Reading.run (.operator x level outer) ts =
      Reading.run (.operator (level.total x) .start outer) ts :=
  run_congr outer rfl fun op rest e => by
    have hop := (h op rest e).2
    simp only [Level.push, hop]
    rfl

theorem run_push {level : Level} {op : Operator} (hl : level.Fits op.isMultiplicative)
    {left right : Formula} {outer : List Level} {ts : List Token}
    (h : op.isMultiplicative = false → Ends true ts) :
    Reading.run (.operator right (level.push left op) outer) ts =
      Reading.run (.operator (.binary op left right) level outer) ts := by
  obtain ⟨sum, product⟩ := level
  obtain ⟨hproduct, hsum⟩ := hl
  cases hproduct
  cases hop : op.isMultiplicative with
  | true =>
    rw [run_factor]
    simp only [Level.push, hop]
    rfl
  | false =>
    cases hsum hop
    rw [run_total _ _ _ (h hop)]
    simp only [Level.push, hop]
    rfl

section
variable {p q : List Token → Prop} {level level' : Level} {outer outer' : List Level}

theorem bind_resume {r : Descent.Read p} {f : Formula × { rest // p rest } → Descent.Read q}
    (h : ∀ x, r = .ok x → resume level outer x = (f x).bind (resume level' outer')) :
    r.bind (resume level outer) = (r.bind f).bind (resume level' outer') := by
  cases r with
  | error e => rfl
  | ok x => exact h x rfl

theorem weaken_resume (r : Descent.Read p) (h : ∀ ts, p ts → q ts) :
    (r.weaken h).bind (resume level outer) = r.bind (resume level outer) := by
  cases r <;> rfl

theorem bind_eq_ok {r : Descent.Read p} {f : Formula × { rest // p rest } → Descent.Read q}
    {x : Formula × { rest // q rest }} (hx : r.bind f = .ok x) : ∃ y, r = .ok y ∧ f y = .ok x := by
  cases r with
  | error e => cases hx
  | ok y => exact ⟨y, rfl, hx⟩

theorem weaken_eq_ok {r : Descent.Read p} {h : ∀ ts, p ts → q ts} {x : Formula × { rest // q rest }}
    (hx : r.weaken h = .ok x) : ∃ y, r = .ok y ∧ y.2.1 = x.2.1 := by
  cases r with
  | error e => cases hx
  | ok y =>
    cases hx
    exact ⟨y, rfl, rfl⟩

end

theorem descent_reads :
    (∀ (m : Bool) (ts : List Token),
      (∀ level outer, level.Fits m →
        Reading.run (.operand level outer) ts = (Descent.row m ts).bind (resume level outer)) ∧
      ∀ x, Descent.row m ts = .ok x → Ends m x.2.1) ∧
    (∀ (m : Bool) (left : Formula) (ts : List Token), (m = false → Ends true ts) →
      (∀ level outer, level.Fits m →
        Reading.run (.operator left level outer) ts =
          (Descent.more m left ts).bind (resume level outer)) ∧
      ∀ x, Descent.more m left ts = .ok x → Ends m x.2.1) ∧
    (∀ (m : Bool) (ts : List Token),
      (∀ level outer, (m = false → level.product = none) →
        Reading.run (.operand level outer) ts = (Descent.operand m ts).bind (resume level outer)) ∧
      ∀ x, Descent.operand m ts = .ok x → m = false → Ends true x.2.1) ∧
    ∀ (ts : List Token) level outer,
        Reading.run (.operand level outer) ts = (Descent.factor ts).bind (resume level outer) := by
  apply Descent.row.mutual_induct
  case case1 =>
    intro m ts ih ih'
    rw [Descent.row]
    refine ⟨fun level outer hl => ?_, fun x hx => ?_⟩
    · rw [ih.1 level outer fun _ => hl.1]
      refine bind_resume fun ⟨left, rest, h⟩ hp => ?_
      refine Eq.trans ?_ (weaken_resume _ _).symm
      exact (ih' left rest h (ih.2 _ hp)).1 level outer hl
    · obtain ⟨⟨left, rest, h⟩, hp, hx⟩ := bind_eq_ok hx
      obtain ⟨y, hy, hrest⟩ := weaken_eq_ok hx
      exact hrest ▸ (ih' left rest h (ih.2 _ hp)).2 y hy
  case case2 =>
    intro left op ts ih ih' hends
    rw [Descent.more, if_pos rfl]
    refine ⟨fun level outer hl => ?_, fun x hx => ?_⟩
    · rw [Reading.run_cons]
      show Reading.run (.operand (level.push left op) outer) ts = _
      rw [ih.1]
      · refine bind_resume fun ⟨right, rest, h⟩ hp => ?_
        refine Eq.trans ?_ (weaken_resume _ _).symm
        refine Eq.trans ?_ ((ih' right rest h (ih.2 _ hp)).1 level outer hl)
        exact run_push hl (ih.2 _ hp)
      · intro hop
        simp [Level.push, hop]
    · obtain ⟨⟨right, rest, h⟩, hp, hx⟩ := bind_eq_ok hx
      obtain ⟨y, hy, hrest⟩ := weaken_eq_ok hx
      exact hrest ▸ (ih' right rest h (ih.2 _ hp)).2 y hy
  case case3 =>
    intro m left op ts hop hends
    rw [Descent.more, if_neg hop]
    refine ⟨fun level outer hl => rfl, ?_⟩
    rintro x ⟨⟩ op' ts' ⟨⟩
    cases m with
    | true => exact ⟨rfl, by simpa using hop⟩
    | false =>
      have := (hends rfl op ts rfl).2
      exact absurd this hop
  case case4 =>
    intro m left ts hts hends
    rw [Descent.more]
    · refine ⟨fun level outer hl => rfl, ?_⟩
      rintro x ⟨⟩ op' ts' e
      exact absurd e (fun e => hts _ _ e)
    · exact hts
  case case5 =>
    intro ts ih
    rw [Descent.operand]
    exact ⟨fun level outer _ => ih level outer, by rintro x hx ⟨⟩⟩
  case case6 =>
    intro ts ih
    rw [Descent.operand]
    exact ⟨fun level outer hl => ih.1 level outer ⟨hl rfl, by rintro ⟨⟩⟩, fun x hx _ => ih.2 x hx⟩
  case case7 =>
    intro level outer
    rw [Descent.factor]
    rfl
  case case8 =>
    intro ts ih level outer
    rw [Descent.factor, Reading.run_cons]
    show Reading.run (.operand .start (level :: outer)) ts = _
    rw [ih.1 .start _ ⟨rfl, fun _ => rfl⟩]
    refine bind_resume fun ⟨inner, rest, h⟩ hp => ?_
    have hends := ih.2 _ hp
    cases rest with
    | nil => rfl
    | cons t rest =>
      cases t with
      | op op => cases (hends op rest rfl).1
      | closeParen | openParen | atom => rfl
  case case9 =>
    intro text ts v hv level outer
    rw [Descent.factor, Reading.run_cons]
    simp only [Reading.step, hv]
    rfl
  case case10 =>
    intro text ts hv level outer
    rw [Descent.factor, Reading.run_cons]
    simp only [Reading.step, hv]
    rfl
  case case11 =>
    intro token ts hparen hatom level outer
    rw [Descent.factor, Reading.run_cons]
    · cases token with
      | openParen => exact absurd rfl (fun e => hparen e)
      | atom text => exact absurd rfl (fun e => hatom text e)
      | op | closeParen => rfl
    · exact hparen
    · exact hatom

theorem descend_eq_ofTokens (tokens : List Token) : descend tokens = ofTokens tokens := by
  cases tokens with
  | nil => rfl
  | cons t ts =>
    obtain ⟨hreads, hends⟩ := descent_reads.1 false (t :: ts)
    rw [ofTokens_eq_run (by simp), Reading.start, hreads .start [] ⟨rfl, fun _ => rfl⟩]
    show (Descent.row false (t :: ts)).bind _ = _
    cases hrow : Descent.row false (t :: ts) with
    | error e => rfl
    | ok x =>
      have hx := hends x hrow
      obtain ⟨a, rest, h⟩ := x
      cases rest with
      | nil => rfl
      | cons u rest =>
        cases u with
        | op op => cases (hx op rest rfl).1
        | closeParen | openParen | atom => rfl

end Reckoner.Formula

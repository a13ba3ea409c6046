import Reckoner.Proofs.Coordinator.Drain
import Reckoner.Proofs.Formula.Height

/-!
# Waves

Expressions are worked out in waves: take all the tasks there are, then report them all. After `k`
waves everything of height `k` and less is finished that no failed division keeps from it, and
nothing else has been touched (`Frontier`). So a wave takes exactly the operators of the next
height, whatever order the reports of the wave before it came in.
-/

namespace Reckoner

/-- What a client sends, with the identifiers and times that are drawn for it. -/
structure Filing where
  text : String
  stamp : Stamp
  stamps : Nat → Stamp
  now : Instant

namespace Filing

def call (s : Filing) : Call := .submit s.text s.stamp s.stamps s.now

def HasNode (s : Filing) (i : TaskId) (g : Formula) : Prop :=
  ∃ f j, Formula.parse s.text = .ok f ∧ f.parts[j]? = some g ∧ i = ⟨(s.stamps j).uuid⟩

theorem HasNode.of_mem_parts {s : Filing} {i : TaskId} {g p : Formula} (h : s.HasNode i g)
    (hp : p ∈ g.parts) : ∃ j, s.HasNode j p := by
  obtain ⟨f, j, hf, hg, -⟩ := h
  obtain ⟨l, hl⟩ := List.mem_iff_getElem?.1 (Formula.parts_subset (List.mem_of_getElem? hg) hp)
  exact ⟨_, f, l, hf, hl, rfl⟩

variable {s : Filing} {f : Formula} (hp : Formula.parse s.text = .ok f) {times : OperationTimes}
  {owner : ExpressionId}
include hp

theorem hasNode_iff {i : TaskId} {g : Formula} :
    s.HasNode i g ↔ (i, g) ∈ ((f.plan times owner s.stamps).map Task.id).zip f.parts := by
  rw [f.ids_plan, List.mem_iff_getElem?]
  simp only [List.getElem?_zip_eq_some, List.getElem?_map]
  constructor
  · rintro ⟨f', j, hp', hg, rfl⟩
    cases hp.symm.trans hp'
    obtain ⟨hj, -⟩ := List.getElem?_eq_some_iff.1 hg
    rw [f.length_parts] at hj
    exact ⟨j, by rw [List.getElem?_range hj]; rfl, hg⟩
  · rintro ⟨j, hi, hg⟩
    obtain ⟨hj, -⟩ := List.getElem?_eq_some_iff.1 hg
    rw [f.length_parts] at hj
    rw [List.getElem?_range hj] at hi
    exact ⟨f, j, hp, hg, (Option.some.inj hi).symm⟩

theorem exists_hasNode {t : Task} (ht : t ∈ f.plan times owner s.stamps) :
    ∃ g, s.HasNode t.id g := by
  have hid : t.id ∈ (f.plan times owner s.stamps).map Task.id := List.mem_map_of_mem ht
  rw [f.ids_plan] at hid
  obtain ⟨j, hj, hid⟩ := List.mem_map.1 hid
  rw [List.mem_range, ← f.length_parts] at hj
  exact ⟨f.parts[j], f, j, hp, List.getElem?_eq_getElem hj, hid.symm⟩

end Filing

namespace Coordinator

/-- All the tasks there are are taken and worked on, and reported in some order. -/
def Wave (c : Coordinator) (ts : List Task) (c' : Coordinator) : Prop :=
  ∃ clock mid, ∃ reports : List (Task × Instant), Drains clock 0 c ts mid ∧
    (reports.map Prod.fst).Perm ts ∧
    c' = mid.run (reports.map honestReport)

inductive Waves : Coordinator → List (List Task) → Coordinator → Prop
  | nil (c) : Waves c [] c
  | cons {c c₁ c' ts waves} : Wave c ts c₁ → Waves c₁ waves c' → Waves c (ts :: waves) c'

/-! ## Frontiers -/

/--
After `k` waves, what is no higher than `k` is finished if nothing fails below it, and the rest
waits.
-/
structure Frontier (filings : List Filing) (k : Nat) (out : List Task) (c : Coordinator) : Prop
    extends c.Serves out where
  stored : ∀ ⦃i t⦄, c.store.tasks.get? i = some t → ∃ s ∈ filings, ∃ g, s.HasNode i g
  works : ∀ s ∈ filings, ∀ ⦃i g⦄, s.HasNode i g → ∃ o, c.store.tasks.WorksOut o i g
  status : ∀ ⦃i t o g⦄, c.store.tasks.get? i = some t → c.store.tasks.WorksOut o i g →
    t.status ≠ .processing ∧ (t.status = .pending ↔ ¬ (g.height ≤ k ∧ g.Clear))

structure WaveAt (filings : List Filing) (height : Nat) (ts : List Task) : Prop where
  sorted : ts.Pairwise fun t u => compare t.queueKey u.queueKey = .lt
  operator : ∀ t ∈ ts, ∃ s ∈ filings, ∃ op left right, s.HasNode t.id (.binary op left right) ∧
    t.operation = op.operation ∧ (Formula.binary op left right).height = height ∧
    (Formula.binary op left right).Clear
  complete : ∀ s ∈ filings, ∀ ⦃i g⦄, s.HasNode i g → g.height = height → g.Clear →
    i ∈ ts.map Task.id

namespace WaveAt

variable {filings : List Filing} {n : Nat} {ts : List Task} (h : WaveAt filings n ts)
include h

theorem mem_iff (i : TaskId) :
    i ∈ ts.map Task.id ↔ ∃ s ∈ filings, ∃ g, s.HasNode i g ∧ g.height = n ∧ g.Clear := by
  constructor
  · intro hi
    obtain ⟨t, ht, rfl⟩ := List.mem_map.1 hi
    obtain ⟨s, hs, op, left, right, hg, -, hdue⟩ := h.operator t ht
    exact ⟨s, hs, _, hg, hdue⟩
  · rintro ⟨s, hs, g, hg, hheight, hclear⟩
    exact h.complete s hs hg hheight hclear

/-- If nothing of a height is left to take, nothing above it is. -/
theorem height_lt_of_eq_nil (hts : ts = []) {s : Filing} (hs : s ∈ filings) {i : TaskId}
    {g : Formula} (hg : s.HasNode i g) (hclear : g.Clear) : g.height < n := by
  by_contra hlate
  obtain ⟨p, hp, hheight, hclear'⟩ := Formula.exists_part_of_height hclear (Nat.le_of_not_lt hlate)
  obtain ⟨j, hj⟩ := hg.of_mem_parts hp
  have hmem := h.complete s hs hj hheight hclear'
  rw [hts] at hmem
  cases hmem

theorem le_of_mem {t : Task} (ht : t ∈ ts) {m : Nat}
    (hm : ∀ s ∈ filings, ∀ f, Formula.parse s.text = .ok f → f.height ≤ m) : n ≤ m := by
  obtain ⟨s, hs, op, left, right, ⟨f, j, hp, hj, -⟩, -, rfl, -⟩ := h.operator t ht
  exact (Formula.height_le_of_mem (List.mem_of_getElem? hj)).trans (hm s hs f hp)

end WaveAt

namespace Frontier

variable {filings : List Filing} {k : Nat} {out : List Task} {c : Coordinator}
  (h : Frontier filings k out c)
include h

theorem worksOut_of_keeps {table : TaskTable} (hk : c.store.tasks.Keeps table) {i : TaskId}
    {t : Task} (ht : c.store.tasks.get? i = some t) {o : ExpressionId} {g : Formula}
    (hw : table.WorksOut o i g) : c.store.tasks.WorksOut t.owner i g := by
  obtain ⟨g', hw', -⟩ := h.agrees.tasks ht
  cases (hw'.mono hk).unique hw
  exact hw'

theorem hasNode_unique {s s' : Filing} (hs : s ∈ filings) (hs' : s' ∈ filings) {i : TaskId}
    {g g' : Formula} (hg : s.HasNode i g) (hg' : s'.HasNode i g') : g = g' := by
  obtain ⟨_, hw⟩ := h.works s hs hg
  obtain ⟨_, hw'⟩ := h.works s' hs' hg'
  exact hw.unique hw'

theorem completed_iff {i : TaskId} {t : Task} {o : ExpressionId} {g : Formula}
    (ht : c.store.tasks.get? i = some t) (hw : c.store.tasks.WorksOut o i g) :
    t.status = .completed ↔
      g.height ≤ k ∧ ∃ v, g.eval = .ok v := by
  obtain ⟨hprocessing, hpending⟩ := h.status ht hw
  have hcoherent := h.sound.table.coherent ht
  obtain ⟨g', hw', hagrees⟩ := h.agrees.tasks ht
  cases hw'.unique hw
  constructor
  · intro hc
    have hdue : g.height ≤ k ∧ g.Clear := by simpa [hc] using hpending
    obtain ⟨v, hv⟩ := Option.isSome_iff_exists.1 (hcoherent.completedResult_isSome hc)
    exact ⟨hdue.1, v, hagrees.completed v hv⟩
  · rintro ⟨hle, v, hv⟩
    have hclear := Formula.clear_of_eval_eq_ok hv
    cases hs : t.status with
    | pending => exact absurd ⟨hle, hclear⟩ (hpending.1 hs)
    | processing => exact absurd hs hprocessing
    | completed => rfl
    | failed =>
      obtain ⟨m, hm⟩ := Option.isSome_iff_exists.1 (hcoherent.error.2 hs)
      cases hv.symm.trans (hagrees.failed hs m hm).1

/-- What can be handed out is what the next wave is due to take. -/
theorem isEligible_iff {i : TaskId} {t : Task} {o : ExpressionId} {g : Formula}
    (ht : c.store.tasks.get? i = some t) (hw : c.store.tasks.WorksOut o i g) :
    c.store.tasks.isEligible t = true ↔ g.height = k + 1 ∧ g.Clear := by
  obtain ⟨-, hpending⟩ := h.status ht hw
  cases hw with
  | number ht' _ hop _ =>
    cases ht.symm.trans ht'
    refine iff_of_false (fun he => ?_) (by simp [Formula.height])
    rcases (h.sound.table.coherent ht).literal hop with hs | hs <;>
      cases hs.symm.trans (TaskTable.isEligible_iff.1 he).1
  | binary op ht' _ _ hl hr hd hwl hwr =>
    cases ht.symm.trans ht'
    obtain ⟨u, hu, -⟩ := hwl.exists_get?
    obtain ⟨v, hv, -⟩ := hwr.exists_get?
    have hleft := h.completed_iff hu hwl
    have hright := h.completed_iff hv hwr
    rw [Formula.clear_binary_iff] at hpending ⊢
    simp only [Formula.height] at hpending ⊢
    constructor
    · intro he
      obtain ⟨hp, hdeps, -⟩ := TaskTable.isEligible_iff.1 he
      obtain ⟨u', hu', huc⟩ := hdeps _ (by rw [hd]; exact List.mem_cons_self)
      obtain ⟨v', hv', hvc⟩ := hdeps _ (by rw [hd]; exact List.mem_cons_of_mem _ List.mem_cons_self)
      cases hu.symm.trans hu'
      cases hv.symm.trans hv'
      obtain ⟨hlk, hle⟩ := hleft.1 huc
      obtain ⟨hrk, hre⟩ := hright.1 hvc
      have hlate : ¬ 1 + max _ _ ≤ k := fun hk => hpending.1 hp ⟨hk, hle, hre⟩
      exact ⟨by omega, hle, hre⟩
    · rintro ⟨hheight, hle, hre⟩
      refine h.sound.table.isEligible_of_completed ht (hpending.2 fun hdue => ?_) hl hr hd
        hu (hleft.2 ⟨by omega, hle⟩) hv (hright.2 ⟨by omega, hre⟩)
      omega

theorem waveAt {ts : List Task} {c' : Coordinator} (hd : c.Drained ts c') :
    WaveAt filings (k + 1) ts where
  sorted := hd.sorted
  operator t ht := by
    obtain ⟨u, now, hu, he, rfl⟩ := hd.taken t ht
    obtain ⟨s, hs, g, hg⟩ := h.stored hu
    obtain ⟨o, hw⟩ := h.works s hs hg
    have hdue := (h.isEligible_iff hu hw).1 he
    obtain ⟨op, _, _, _, _, hready⟩ := h.proper.exists_ready hu he
    obtain ⟨left, right, rfl, -⟩ := hready.worksOut hu hw
    exact ⟨s, hs, op, left, right, hg, hready.operation, hdue⟩
  complete s hs i g hg hheight hclear := by
    obtain ⟨o, hw⟩ := h.works s hs hg
    obtain ⟨t, ht, -⟩ := hw.exists_get?
    exact hd.complete ht ((h.isEligible_iff ht hw).2 ⟨hheight, hclear⟩)

theorem wave {ts : List Task} {c' : Coordinator} (hwave : c.Wave ts c') :
    Frontier filings (k + 1) (out ++ ts) c' ∧ WaveAt filings (k + 1) ts := by
  obtain ⟨clock, mid, reports, hd, hperm, rfl⟩ := hwave
  obtain ⟨hmid, hdrained, hanswers⟩ := hd.spec h.toServes
  have hreports : ∀ p ∈ reports, p.1 ∈ out ++ ts ∧
      p.1.answer? = some (Assignment.ofTask p.1).report := by
    intro p hp
    have hmem : p.1 ∈ ts := hperm.mem_iff.1 (List.mem_map_of_mem hp)
    exact ⟨List.mem_append_right _ hmem, hanswers _ hmem⟩
  obtain ⟨hend, hanswered⟩ := hmid.reports reports hreports
  have hids : ∀ i, i ∈ reports.map (fun p => p.1.id) ↔ i ∈ ts.map Task.id := by
    intro i
    rw [← (hperm.map Task.id).mem_iff, List.map_map]
    rfl
  have hkeeps := (TaskTable.keeps_of_standing hdrained.calm.standing).trans hanswered.keeps
  refine ⟨⟨hend, ?_, ?_, ?_⟩, h.waveAt hdrained⟩
  · intro i t ht
    obtain ⟨u, hu, -⟩ := hdrained.of_answered hanswered hids ht
    exact h.stored hu
  · intro s hs i g hg
    obtain ⟨o, hw⟩ := h.works s hs hg
    exact ⟨o, hw.mono hkeeps⟩
  · intro i t o g ht hw
    obtain ⟨u, hu, hstatus⟩ := hdrained.of_answered hanswered hids ht
    have hw' := h.worksOut_of_keeps hkeeps hu hw
    have hdue := h.isEligible_iff hu hw'
    split at hstatus
    · rename_i he
      obtain ⟨hheight, hclear⟩ := hdue.1 he
      rcases Task.isFinished_iff.1 hstatus with hs | hs <;> simp [hs, hheight, hclear]
    · rename_i he
      obtain ⟨hprocessing, hpending⟩ := h.status hu hw'
      have hnext : ¬ (g.height = k + 1 ∧ g.Clear) := mt hdue.2 he
      rw [hstatus, hpending]
      refine ⟨hprocessing, not_congr ⟨fun hle => ⟨by omega, hle.2⟩, fun hle => ⟨?_, hle.2⟩⟩⟩
      have hne : g.height ≠ k + 1 := fun e => hnext ⟨e, hle.2⟩
      omega

end Frontier

/-! ## Submissions -/

/-- Literals come completed, and operators wait. -/
theorem status_of_arrived {table : TaskTable} {times : OperationTimes} {owner o : ExpressionId}
    {stamps : Nat → Stamp} {f g : Formula} (hn : ((f.plan times owner stamps).map Task.id).Nodup)
    {t u : Task} (hu : u ∈ f.plan times owner stamps)
    (ht : (table.arrived (f.plan times owner stamps)).get? u.id = some t)
    (hw : (table.arrived (f.plan times owner stamps)).WorksOut o u.id g) :
    t.status ≠ .processing ∧ (t.status = .pending ↔ ¬ (g.height ≤ 0 ∧ g.Clear)) := by
  have hfields := table.map_get?_arrived_of_mem (f := fun t => (t.operation, t.status))
      (fun _ _ _ => rfl) hn hu
  rw [ht, Option.map_some, Option.some.injEq, Prod.mk.injEq] at hfields
  have hstatus := Plan.status_of_mem hu
  rw [← hfields.1, ← hfields.2] at hstatus
  cases hw with
  | number ht' _ hop _ =>
    cases ht.symm.trans ht'
    simp [hstatus, hop, Formula.height, Formula.Clear, Formula.properParts]
  | binary op ht' _ hop =>
    cases ht.symm.trans ht'
    simp [hstatus, hop, op.operation_ne_value, Formula.height]

namespace Frontier

theorem initial (times : OperationTimes) : Frontier [] 0 [] (initial times none) where
  toServes := .initial times
  stored i t ht := by simp [Coordinator.initial, Store.empty] at ht
  works s hs := by cases hs
  status i t o g ht := by simp [Coordinator.initial, Store.empty] at ht

theorem submit {filings : List Filing} {c : Coordinator} (h : Frontier filings 0 [] c) {s : Filing}
    (hf : s.call.Fresh c.store) : Frontier (filings ++ [s]) 0 [] (c.after s.call) := by
  have hserves := h.toServes.after_of_handsOut_eq_none s.call rfl hf trivial
  have hsub : ∀ s' ∈ filings, s' ∈ filings ++ [s] := fun _ hs => List.mem_append_left _ hs
  have hnew : s ∈ filings ++ [s] := List.mem_append_right _ (List.mem_singleton_self s)
  cases hp : Formula.parse s.text with
  | error cause =>
    obtain ⟨_, hs', htasks, -⟩ := submit_eq_of_error c hp s.stamp s.stamps s.now
    have htable : (c.after s.call).store.tasks = c.store.tasks := by
      rw [Filing.call, Coordinator.after, hs', htasks]
    refine ⟨hserves, ?_, ?_, ?_⟩ <;> rw [htable]
    · intro i t ht
      obtain ⟨s', hs', hg⟩ := h.stored ht
      exact ⟨s', hsub s' hs', hg⟩
    · intro s' hs' i g hg
      rcases List.mem_append.1 hs' with hs' | hs'
      · exact h.works s' hs' hg
      · cases List.mem_singleton.1 hs'
        obtain ⟨f, j, hp', -⟩ := hg
        cases hp.symm.trans hp'
    · exact h.status
  | ok f =>
    obtain ⟨hn, hold⟩ := hf.plan hp c.times ⟨s.stamp.uuid⟩
    obtain ⟨o, _, hs', htasks, hholds, -⟩ :=
      submit_eq_of_ok h.sound hp s.now (hf.expressions _ Call.stamp_mem_draws) hn hold
    have htable : (c.after s.call).store.tasks =
        c.store.tasks.arrived (f.plan c.times ⟨s.stamp.uuid⟩ s.stamps) := by
      rw [Filing.call, Coordinator.after, hs', htasks]
    have hkeeps : c.store.tasks.Keeps (c.after s.call).store.tasks :=
      htable ▸ TaskTable.keeps_arrived hold
    refine ⟨hserves, fun i t ht => ?_, fun s' hs' i g hg => ?_, fun i t o g ht hw => ?_⟩
    · obtain ⟨u, ⟨hu, rfl⟩ | hu, -⟩ := TaskTable.exists_get?_of_arrived hn (htable ▸ ht)
      · exact ⟨s, hnew, Filing.exists_hasNode hp hu⟩
      · obtain ⟨s', hs', hg⟩ := h.stored hu
        exact ⟨s', hsub s' hs', hg⟩
    · rcases List.mem_append.1 hs' with hs' | hs'
      · obtain ⟨o, hw⟩ := h.works s' hs' hg
        exact ⟨o, hw.mono hkeeps⟩
      · cases List.mem_singleton.1 hs'
        rw [htasks, ← htable] at hholds
        have hparts := hholds.worksOut_parts hserves.sound.table.indexed
        exact ⟨_, (List.forall₂_iff_zip.1 hparts).2 ((Filing.hasNode_iff hp).1 hg)⟩
    · by_cases hi : i ∈ (f.plan c.times ⟨s.stamp.uuid⟩ s.stamps).map Task.id
      · obtain ⟨u, hu, rfl⟩ := List.mem_map.1 hi
        rw [htable] at ht hw
        exact status_of_arrived hn hu ht hw
      · have hstatus := TaskTable.map_get?_arrived_of_not_mem (f := Task.status) (fun _ _ _ => rfl)
            c.store.tasks hi
        rw [← htable, ht] at hstatus
        obtain ⟨u, hu, e⟩ := Option.map_eq_some_iff.1 hstatus.symm
        rw [← e]
        exact h.status hu (h.worksOut_of_keeps hkeeps hu hw)

theorem start (times : OperationTimes) (filings : List Filing)
    (hd : ((filings.map Filing.call).flatMap Call.draws).Nodup) :
    Frontier filings 0 [] ((Coordinator.initial times none).run (filings.map Filing.call)) := by
  induction filings using List.reverseRecOn with
  | nil => exact .initial times
  | append_singleton filings s ih =>
    rw [List.map_append, List.map_singleton] at hd ⊢
    rw [run_snoc]
    refine (ih ?_).submit (fresh_run times none hd)
    rw [List.flatMap_append] at hd
    exact hd.of_append_left

end Frontier

/-! ## Runs -/

theorem Waves.spec {filings : List Filing} {waves : List (List Task)} {c c' : Coordinator}
    (hw : Waves c waves c') :
    ∀ {k : Nat} {out : List Task}, Frontier filings k out c →
      (∃ out, Frontier filings (k + waves.length) out c') ∧
        ∀ n ts, waves[n]? = some ts → WaveAt filings (k + n + 1) ts := by
  induction hw with
  | nil c =>
    intro k out h
    exact ⟨⟨out, h⟩, fun n ts hts => by simp at hts⟩
  | @cons c c₁ c' first waves hwave _ ih =>
    intro k out h
    obtain ⟨hnext, hat⟩ := h.wave hwave
    obtain ⟨hend, hall⟩ := ih hnext
    refine ⟨?_, fun n ts hts => ?_⟩
    · rw [List.length_cons, Nat.add_comm waves.length, ← Nat.add_assoc]
      exact hend
    · cases n with
      | zero =>
        cases hts
        exact hat
      | succ n =>
        rw [Nat.add_comm n, ← Nat.add_assoc]
        exact hall n ts hts

theorem countP_le_of_drop {α : Type} {p : α → Bool} {l : List α} {n : Nat}
    (h : ∀ (k : Nat) a, n ≤ k → l[k]? = some a → p a = false) : l.countP p ≤ n := by
  have hdrop : (l.drop n).countP p = 0 := by
    rw [List.countP_eq_zero]
    intro a ha
    obtain ⟨k, hk⟩ := List.mem_iff_getElem?.1 ha
    rw [List.getElem?_drop] at hk
    simp [h _ a (Nat.le_add_right n k) hk]
  calc l.countP p = (l.take n ++ l.drop n).countP p := by rw [List.take_append_drop]
    _ = (l.take n).countP p := by rw [List.countP_append, hdrop, Nat.add_zero]
    _ ≤ (l.take n).length := List.countP_le_length
    _ ≤ n := List.length_take_le n l

/--
Of all the texts that are accepted, each wave takes the operators of one height, one more than the
wave before it, as long as no division below them fails, and takes them in the order of age and
identifier. Above a division that fails nothing is ever taken. If a wave finds nothing there is
nothing left, and that is so after as many waves as the highest formula is high.
-/
theorem waves_by_height (times : OperationTimes) (filings : List Filing)
    (hd : ((filings.map Filing.call).flatMap Call.draws).Nodup) {waves : List (List Task)}
    {c : Coordinator} (hw : Waves ((initial times none).run (filings.map Filing.call)) waves c) :
    (∀ k ts, waves[k]? = some ts →
      ts.Pairwise (fun t u => (compare t.createdAt u.createdAt).then (compare t.id u.id) = .lt) ∧
      (∀ t ∈ ts, ∃ s ∈ filings, ∃ op left right, s.HasNode t.id (.binary op left right) ∧
        t.operation = op.operation ∧ (Formula.binary op left right).height = k + 1) ∧
      (∀ i, i ∈ ts.map Task.id ↔
        ∃ s ∈ filings, ∃ g, s.HasNode i g ∧ g.height = k + 1 ∧ ∀ p ∈ g.properParts, ¬ p.Fails) ∧
      (ts = [] → ∀ s ∈ filings, ∀ i g, s.HasNode i g → (∀ p ∈ g.properParts, ¬ p.Fails) →
        g.height ≤ k)) ∧
    (∀ s ∈ filings, ∀ i g, s.HasNode i g → (∃ p ∈ g.properParts, p.Fails) →
      ∀ ts ∈ waves, i ∉ ts.map Task.id) ∧
    (∀ n, (∀ s ∈ filings, ∀ f, Formula.parse s.text = .ok f → f.height ≤ n) →
      waves.countP (fun ts => !ts.isEmpty) ≤ n) ∧
    ∀ clock, ∃ ts c', Drains clock 0 c ts c' := by
  have hstart := Frontier.start times filings hd
  obtain ⟨⟨out, hend⟩, hall⟩ := hw.spec hstart
  simp only [Nat.zero_add] at hall
  refine ⟨fun k ts hts => ?_, fun s hs i g hg hfails ts hts hi => ?_, fun n hn =>
    ?_, fun clock => ?_⟩
  · have hat := hall k ts hts
    refine ⟨hat.sorted, fun t ht => ?_, hat.mem_iff, fun hempty s hs i g hg hclear => ?_⟩
    · obtain ⟨s, hs, op, left, right, hg, hop, hheight, -⟩ := hat.operator t ht
      exact ⟨s, hs, op, left, right, hg, hop, hheight⟩
    · exact Nat.lt_succ_iff.1 (hat.height_lt_of_eq_nil hempty hs hg hclear)
  · obtain ⟨p, hp, hfail⟩ := hfails
    obtain ⟨k, hk⟩ := List.mem_iff_getElem?.1 hts
    obtain ⟨s', hs', g', hg', -, hclear⟩ := ((hall k ts hk).mem_iff i).1 hi
    cases hstart.hasNode_unique hs hs' hg hg'
    exact hclear p hp hfail
  · refine countP_le_of_drop fun k ts hk hts => ?_
    cases ts with
    | nil => rfl
    | cons t ts =>
      have := (hall k _ hts).le_of_mem List.mem_cons_self hn
      omega
  · exact hend.toServes.exists_drains clock 0

/--
The product waits for a division that fails, the other division for a sum, and the third text is
refused.
-/
theorem waves_by_height_of_divisions :
    let filing (text : String) (n : Nat) : Filing :=
      ⟨text, Evaluation.stamp n, fun k => Evaluation.stamp (n + 1 + k), Evaluation.clock n⟩
    let filings := [filing "(1+2)*(6/0)" 0, filing "6/(1+2)" 10, filing "1+" 20]
    ∃ first second last c, Waves ((initial .instant none).run (filings.map Filing.call))
      [first, second, last] c ∧
      Id.ofNat 6 ∈ first.map Task.id ∧ Id.ofNat 15 ∈ second.map Task.id ∧
      (∀ ts ∈ [first, second, last], Id.ofNat 7 ∉ ts.map Task.id) ∧ last = [] := by
  intro filing filings
  have hd : ((filings.map Filing.call).flatMap Call.draws).Nodup := by decide
  have hnext : ∀ {waves c}, Waves ((initial .instant none).run (filings.map Filing.call)) waves c →
      ∃ ts c', Wave c ts c' := by
    intro waves c hw
    obtain ⟨-, -, -, hdrains⟩ := waves_by_height .instant filings hd hw
    obtain ⟨ts, mid, hdrains⟩ := hdrains fun n => (Evaluation.clock n, Evaluation.clock n)
    refine ⟨ts, _, _, mid, ts.map fun t => (t, Evaluation.clock 30), hdrains, ?_, rfl⟩
    rw [List.map_map, show Prod.fst ∘ (fun t => (t, Evaluation.clock 30)) = (id : Task → Task) from
      rfl, List.map_id]
  obtain ⟨first, c₁, h₁⟩ := hnext (.nil _)
  obtain ⟨second, c₂, h₂⟩ := hnext (.cons h₁ (.nil _))
  obtain ⟨last, c, h₃⟩ := hnext (.cons h₁ (.cons h₂ (.nil _)))
  have hw := Waves.cons h₁ (.cons h₂ (.cons h₃ (.nil c)))
  obtain ⟨hwave, hnever, hcount, -⟩ := waves_by_height .instant filings hd hw
  let sum : Formula := .binary .add (.number 1.0) (.number 2.0)
  let division : Formula := .binary .div (.number 6.0) (.number 0.0)
  have hproduct : Formula.parse "(1+2)*(6/0)" = .ok (.binary .mul sum division) := rfl
  have hquotient : Formula.parse "6/(1+2)" = .ok (.binary .div (.number 6.0) sum) := rfl
  have hrefused : ∃ cause, Formula.parse "1+" = .error cause := ⟨_, rfl⟩
  have hproductIn : filing "(1+2)*(6/0)" 0 ∈ filings := List.mem_cons_self
  have hquotientIn : filing "6/(1+2)" 10 ∈ filings := List.mem_cons_of_mem _ List.mem_cons_self
  have hfirst : Id.ofNat 6 ∈ first.map Task.id := ((hwave 0 first rfl).2.2.1 _).2
    ⟨_, hproductIn, division, ⟨_, 5, hproduct, rfl, rfl⟩, rfl,
      Formula.clear_binary_iff.2 ⟨⟨_, rfl⟩, _, rfl⟩⟩
  have hsecond : Id.ofNat 15 ∈ second.map Task.id := ((hwave 1 second rfl).2.2.1 _).2
    ⟨_, hquotientIn, _, ⟨_, 4, hquotient, rfl, rfl⟩, rfl,
      Formula.clear_binary_iff.2 ⟨⟨_, rfl⟩, _, rfl⟩⟩
  have hfails : division.Fails := ⟨_, _, _, _, rfl, rfl, rfl, by decide⟩
  have hbound := hcount 2 fun s hs f hp => by
    simp only [filings, List.mem_cons, List.not_mem_nil, or_false] at hs
    rcases hs with rfl | rfl | rfl
    · cases hproduct.symm.trans hp
      decide
    · cases hquotient.symm.trans hp
      decide
    · obtain ⟨_, hrefused⟩ := hrefused
      cases hrefused.symm.trans hp
  refine ⟨first, second, last, c, hw, hfirst, hsecond, ?_, ?_⟩
  · exact hnever _ hproductIn _ _ ⟨_, 6, hproduct, rfl, rfl⟩
      ⟨division, List.mem_append_right _ division.mem_parts_self, hfails⟩
  · cases first <;> cases second <;> cases last <;> simp at hfirst hsecond hbound ⊢

end Coordinator

end Reckoner

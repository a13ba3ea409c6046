import Reckoner.Proofs.Concurrency.Stages

/-!
# No completion is lost

However the steps of many calls fall between each other, what the calls keep up together holds after
every step of every schedule. So verdicts are final, and when nothing is under way every expression
that is not final has a task to wait for.
-/

namespace Reckoner.World

structure Sound (w : World) : Prop where
  orderly : w.store.Orderly w.coordinator.times
  valid : ∀ stage ∈ w.stages, stage.Valid w.coordinator.times w.store
  claims : (w.stages.flatMap Stage.claims).Nodup
  lock : w.stages.countP Stage.holdsLock ≤ 1
  covers : ∀ i e, w.store.expressions[i]? = some e → w.store.Covers w.coordinator.times i e
    (∃ stage ∈ w.stages, stage.Plans i) (∃ stage ∈ w.stages, stage.Owes i)

/-! ## One step -/

theorem step_cases (w : World) (n : Nat) : w.step n = w ∨ ∃ before stage after,
    w.stages = before ++ stage :: after ∧
    (stage.needsLock = true → ∀ other ∈ w.stages, other.holdsLock = false) ∧
    w.step n = ⟨{ w.coordinator with store := (stage.step w.coordinator).2 },
      before ++ (stage.step w.coordinator).1 :: after⟩ := by
  cases hstage : w.stages[n]? with
  | none => exact .inl (by simp only [step, hstage])
  | some stage =>
    cases hopen : stage.needsLock && w.stages.any Stage.holdsLock with
    | true => exact .inl (by simp only [step, hstage, hopen, if_true])
    | false =>
      have hfree : stage.needsLock = true → ∀ other ∈ w.stages, other.holdsLock = false := by
        intro hneeds
        simpa [hneeds] using hopen
      obtain ⟨hn, hget⟩ := List.getElem?_eq_some_iff.1 hstage
      obtain ⟨before, after, hl, -, hset⟩ : ∃ before after,
        w.stages = before ++ w.stages[n] :: after ∧
          before.length = n ∧ w.stages.set n (stage.step w.coordinator).1 =
            before ++ (stage.step w.coordinator).1 :: after := List.exists_of_set hn
      rw [hget] at hl
      exact .inr ⟨before, stage, after, hl, hfree, by rw [step_eq hstage hfree, hset]⟩

namespace Sound

theorem perm {c : Coordinator} {stages stages' : List Stage} (hp : stages.Perm stages')
    (h : Sound ⟨c, stages⟩) : Sound ⟨c, stages'⟩ where
  orderly := h.orderly
  valid stage hm := h.valid stage (hp.mem_iff.2 hm)
  claims := ((hp.flatMap_right Stage.claims).nodup_iff).1 h.claims
  lock := hp.countP_eq Stage.holdsLock ▸ h.lock
  covers i e he := (h.covers i e he).imp (fun ⟨stage, hm, hs⟩ => ⟨stage, hp.mem_iff.1 hm, hs⟩)
    fun ⟨stage, hm, hs⟩ => ⟨stage, hp.mem_iff.1 hm, hs⟩

theorem move {c : Coordinator} {s' : Store} {stage next : Stage} {others : List Stage}
    (h : Sound ⟨c, stage :: others⟩) (hm : Moves c.times c.store s' stage next)
    (hfree : stage.needsLock = true → ∀ other ∈ others, other.holdsLock = false) :
    Sound ⟨{ c with store := s' }, next :: others⟩ := by
  obtain ⟨horderly, hvalid, hclaims, hlock, hcovers⟩ := h
  rw [List.flatMap_cons, List.nodup_append] at hclaims
  obtain ⟨hnodup, hothers, hdisjoint⟩ := hclaims
  have hcount : ∀ other ∈ others, stage.holdsLock = true → other.holdsLock = false := by
    intro other hmem hs
    by_contra ho
    rw [List.countP_cons_of_pos hs] at hlock
    have := List.countP_pos_iff.2 ⟨other, hmem, by simpa using ho⟩
    omega
  refine ⟨hm.orderly, fun x hx => ?_, ?_, ?_, fun i e he => ?_⟩
  · rcases List.mem_cons.1 hx with rfl | hx
    · exact hm.valid
    · refine (hvalid x (List.mem_cons_of_mem _ hx)).mono horderly.indexed hm.frame
        (fun u hu hs => ?_) fun hl => ?_
      · exact hdisjoint u hs u (List.mem_flatMap.2 ⟨x, hx, hu⟩) rfl
      · -- a step that writes expressions would have had to wait
        refine hm.expressions (Bool.or_eq_false_iff.2 ⟨Bool.eq_false_iff.2 fun hn =>
          ?_, Bool.eq_false_iff.2 fun hs => ?_⟩)
        · rw [hfree hn x hx] at hl
          cases hl
        · rw [hcount x hx hs] at hl
          cases hl
  · rw [List.flatMap_cons, List.nodup_append]
    exact ⟨hm.claims.nodup hnodup, hothers, fun u hu => hdisjoint u (hm.claims.subset hu)⟩
  · cases hl : next.holdsLock with
    | true =>
      have hnone : others.countP Stage.holdsLock = 0 :=
        List.countP_eq_zero.2 fun x hx => by simp [hfree (hm.lock hl) x hx]
      have hone : (next :: others).countP Stage.holdsLock = 1 := by
        rw [List.countP_cons_of_pos hl, hnone]
      exact Nat.le_of_eq hone
    | false =>
      rw [List.countP_cons_of_neg (by simp [hl])]
      exact Nat.le_trans (List.Sublist.countP_le (List.sublist_cons_self stage others)) hlock
  · have hsome : ∀ {p : Stage → Prop} {x : Stage}, (∃ y ∈ x :: others, p y) ↔
        (∃ y ∈ others, p y) ∨ p x := by
      intro p x
      simp [or_comm]
    refine (hm.covers i e he _ _ fun e' he' => ?_).imp hsome.2 hsome.2
    exact (hcovers i e' he').imp hsome.1 hsome.1

theorem step {w : World} (h : w.Sound) (n : Nat) :
    (w.step n).Sound ∧ ∃ drawn, w.store.Extends drawn (w.step n).store := by
  rcases w.step_cases n with e | ⟨before, stage, after, hstages, hfree, e⟩ <;> rw [e]
  · exact ⟨h, [], .of_tasks (.refl _ _)⟩
  · have hmem : stage ∈ w.stages := by simp [hstages]
    have hmove := Stage.moves h.orderly (h.valid stage hmem)
    have hmiddle : w.stages.Perm (stage :: (before ++ after)) := hstages ▸ List.perm_middle
    have hhead : Sound ⟨w.coordinator, stage :: (before ++ after)⟩ := perm hmiddle h
    refine ⟨(hhead.move hmove fun hn x hx => hfree hn x ?_).perm List.perm_middle.symm, _,
      hmove.frame⟩
    exact hmiddle.mem_iff.2 (List.mem_cons_of_mem _ hx)

/-! ## Schedules -/

theorem start (times : OperationTimes) (lease : Option Duration) {calls : List Call}
    (hd : (calls.flatMap Call.draws).Nodup) : (World.start (.initial times lease) calls).Sound where
  orderly := .empty times
  valid stage hm := by
    obtain ⟨call, hc, rfl⟩ := List.mem_map.1 hm
    cases call with
    | submit text stamp stamps now =>
      refine ⟨(List.nodup_flatMap.1 hd).1 _ hc, fun u _ => ?_, fun u _ => ?_⟩
      · simp [World.start, World.store, Coordinator.initial, Store.empty]
      · simp [World.start, World.store, Coordinator.initial, Store.empty]
    | _ => trivial
  claims := by
    have hsame : ∀ call, (Stage.ofCall call).claims = call.draws := by
      intro call
      cases call <;> rfl
    simpa [World.start, List.flatMap_map, hsame] using hd
  lock := by
    have hnone : (calls.map Stage.ofCall).countP Stage.holdsLock = 0 := by
      refine List.countP_eq_zero.2 fun stage hm => ?_
      obtain ⟨call, -, rfl⟩ := List.mem_map.1 hm
      cases call <;> simp [Stage.ofCall, Stage.holdsLock]
    exact Nat.le_trans (Nat.le_of_eq hnone) (Nat.zero_le 1)
  covers i e he := by simp [World.start, World.store, Coordinator.initial, Store.empty] at he

theorem run {w : World} (h : w.Sound) (schedule : List Nat) :
    (w.run schedule).Sound ∧ ∃ drawn, w.store.Extends drawn (w.run schedule).store := by
  induction schedule generalizing w with
  | nil => exact ⟨h, [], .of_tasks (.refl _ _)⟩
  | cons n rest ih =>
    obtain ⟨hstep, _, hx⟩ := h.step n
    obtain ⟨hrun, _, hy⟩ := ih hstep
    exact ⟨hrun, _, hx.trans hy⟩

/-- At rest nobody plans tasks and nobody owes anything. -/
theorem unsettled_of_atRest {w : World} (h : w.Sound) (hrest : w.AtRest) {i : ExpressionId}
    {e : Expression} {f : Formula} (he : w.store.expressions[i]? = some e)
    (hp : Formula.parse e.text = .ok f) (ht : e.status.isTerminal = false) :
    Outcome.Unsettled (w.store.tasksOf i) := by
  rcases h.covers i e he f hp with ⟨stage, hm, hplans⟩ |
    ⟨stamps, -, hterm | hu | ⟨stage, hm, howes⟩⟩
  · exact absurd hplans (Stage.isFree_of_isIdle (hrest stage hm) i).1
  · rw [ht] at hterm
    cases hterm
  · exact hu
  · exact absurd howes (Stage.isFree_of_isIdle (hrest stage hm) i).2

end Sound

/--
Whatever calls there are and however their steps interleave, an expression that is final keeps its
status, its result and its error, and a task that is completed or failed is never pending or
processing again. And whenever no call is under way, an accepted expression that is not final has no
failed task and one that is not completed.
-/
theorem keeps_completions (times : OperationTimes) (lease : Option Duration) {calls : List Call}
    (hd : (calls.flatMap Call.draws).Nodup) (schedule : List Nat) :
    let w := (World.start (.initial times lease) calls).run schedule
    (∀ (i : ExpressionId) (e : Expression), w.store.expressions[i]? = some e →
      e.status.isTerminal = true → ∀ more, ∃ e', (w.run more).store.expressions[i]? = some e' ∧
        e'.status = e.status ∧ e'.result = e.result ∧ e'.error = e.error) ∧
    (∀ i t, w.store.tasks.get? i = some t → t.status = .completed ∨ t.status = .failed →
      ∀ more, ∃ t', (w.run more).store.tasks.get? i = some t' ∧
        (t'.status = .completed ∨ t'.status = .failed)) ∧
    (w.AtRest → ∀ (i : ExpressionId) (e : Expression) f, w.store.expressions[i]? = some e →
      Formula.parse e.text = .ok f → e.status.isTerminal = false →
        (∀ t ∈ w.store.tasksOf i, t.status ≠ .failed) ∧
        ∃ t ∈ w.store.tasksOf i, t.status ≠ .completed) := by
  intro w
  have hw : w.Sound := ((Sound.start times lease hd).run schedule).1
  refine ⟨fun i e he ht more => ?_, fun i t ht hf more => ?_, fun hrest i e f =>
    hw.unsettled_of_atRest hrest⟩
  · obtain ⟨-, _, hx⟩ := hw.run more
    obtain ⟨e', he', -, hv⟩ := hx.kept he
    have hverdict := hv ht
    simp only [Expression.verdict, Prod.mk.injEq] at hverdict
    exact ⟨e', he', hverdict⟩
  · obtain ⟨-, _, hx⟩ := hw.run more
    obtain ⟨t', ht', -, hf'⟩ := hx.tasks.kept ht
    exact ⟨t', ht', Task.isFinished_iff.1 (hf' (Task.isFinished_iff.2 hf))⟩

/--
Two reports are written while a submission concludes from an older snapshot, and a third comes late.
-/
theorem keeps_completions_of_race :
    let w := (World.start (.initial .instant none) [.submitText "1+2*3" 0, .submitText "8/4" 10,
      .report (Id.ofNat 4) (.completed 6.0) (Evaluation.clock 20),
      .report (Id.ofNat 5) (.completed 7.0) (Evaluation.clock 21),
      .report (Id.ofNat 5) (.failed "late") (Evaluation.clock 22)]).run
        [0, 1, 0, 2, 1, 0, 3, 1, 0, 2, 3, 2, 0, 3, 2, 3, 3, 2, 2, 1, 1, 4, 4, 4, 4]
    (∃ e, w.store.expressions[(Id.ofNat 0 : ExpressionId)]? = some e ∧ e.status = .completed ∧
      ∀ more, ∃ e', (w.run more).store.expressions[(Id.ofNat 0 : ExpressionId)]? = some e' ∧
        e'.status = .completed ∧ e'.result = e.result) ∧
    ∃ t ∈ w.store.tasksOf (Id.ofNat 10), t.status ≠ .completed := by
  intro w
  obtain ⟨hfinal, -, hrest⟩ :=
    @keeps_completions .instant none [.submitText "1+2*3" 0, .submitText "8/4" 10,
    .report (Id.ofNat 4) (.completed 6.0) (Evaluation.clock 20),
    .report (Id.ofNat 5) (.completed 7.0) (Evaluation.clock 21),
    .report (Id.ofNat 5) (.failed "late") (Evaluation.clock 22)] (by decide)
    [0, 1, 0, 2, 1, 0, 3, 1, 0, 2, 3, 2, 0, 3, 2, 3, 3, 2, 2, 1, 1, 4, 4, 4, 4]
  constructor
  · have hstatus : (w.store.expressions[(Id.ofNat 0 : ExpressionId)]?).map Expression.status =
        some .completed := by
      decide
    obtain ⟨e, he, hs⟩ := Option.map_eq_some_iff.1 hstatus
    refine ⟨e, he, hs, fun more => ?_⟩
    obtain ⟨e', he', hs', hr, -⟩ := hfinal _ e he (by rw [hs]; rfl) more
    exact ⟨e', he', hs'.trans hs, hr⟩
  · have hopen : (w.store.expressions[(Id.ofNat 10 : ExpressionId)]?).map
        (fun e => (e.text, e.status)) =
          some ("8/4", .computing) := by decide
    obtain ⟨e, he, hs⟩ := Option.map_eq_some_iff.1 hopen
    simp only [Prod.mk.injEq] at hs
    have hidle : ∀ stage ∈ w.stages, stage.isIdle = true := by decide
    have hp : Formula.parse "8/4" = .ok (.binary .div (.number 8.0) (.number 4.0)) := by rfl
    exact (hrest hidle _ e _ he (hs.1 ▸ hp) (by rw [hs.2]; rfl)).2

end Reckoner.World

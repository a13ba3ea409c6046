import Reckoner.Proofs.Worker.Crew

/-!
# Taking all there is

Whoever asks for tasks until there is none gets exactly the tasks that were eligible at the start,
in the order of the queue: handing out one of them makes no other eligible, nor keeps one from it.
When they have all been reported, those tasks are finished, and all others are as they were.
-/

namespace Reckoner.Coordinator

/-- Tasks are taken until there is none. Each call reads the clock twice, the first one at `n`. -/
inductive Drains (clock : Nat → Instant × Instant) : Nat → Coordinator → List Task →
    Coordinator → Prop
  | stop {n c c'} : c.nextTask (clock n).1 (clock n).2 = (none, c') → Drains clock n c [] c'
  | take {n c c₁ c' t ts} : c.nextTask (clock n).1 (clock n).2 = (some t, c₁) →
    Drains clock (n + 1) c₁ ts c' →
      Drains clock n c (t :: ts) c'

structure Drained (c : Coordinator) (ts : List Task) (c' : Coordinator) : Prop where
  taken : ∀ t ∈ ts, ∃ u now, c.store.tasks.get? t.id = some u ∧ c.store.tasks.isEligible u = true ∧
    t = u.start now
  complete : ∀ ⦃i u⦄, c.store.tasks.get? i = some u → c.store.tasks.isEligible u = true →
    i ∈ ts.map Task.id
  sorted : ts.Pairwise fun t u => compare t.queueKey u.queueKey = .lt
  status : ∀ i, (c'.store.tasks.get? i).map Task.status =
    if i ∈ ts.map Task.id then some .processing else (c.store.tasks.get? i).map Task.status
  calm : c.store.tasks.Calm c'.store.tasks

namespace Drained

variable {c c' : Coordinator} {ts : List Task}

theorem nil (hn : ∀ i u, c.store.tasks.get? i = some u → c.store.tasks.isEligible u = false) :
    c.Drained [] c where
  taken t ht := by cases ht
  complete i u hu he := by
    rw [hn i u hu] at he
    cases he
  sorted := .nil
  status i := by simp
  calm := .refl _

theorem cons {u : Task} (hu : c.store.tasks.get? u.id = some u)
    (he : c.store.tasks.isEligible u = true)
    (hleast : ∀ i v, c.store.tasks.get? i = some v → c.store.tasks.isEligible v = true → v ≠ u →
      compare u.queueKey v.queueKey = .lt) {now : Instant} {c₁ : Coordinator}
    (hc₁ : c₁.store.tasks = c.store.tasks.put u (u.start now)) (hd : c₁.Drained ts c') :
    c.Drained (u.start now :: ts) c' := by
  have hp := (TaskTable.isEligible_iff.1 he).1
  have heligible := TaskTable.isEligible_put_start hu hp now
  have hget : ∀ i, c₁.store.tasks.get? i = if u.id = i then some (u.start now)
      else c.store.tasks.get? i := by
    intro i
    rw [hc₁, TaskTable.get?_put]
    rfl
  -- what is eligible after the first task has gone was eligible before, and is another task
  have hother : ∀ t ∈ ts, ∃ v now, c.store.tasks.get? t.id = some v ∧
      c.store.tasks.isEligible v = true ∧
      t = v.start now ∧ v ≠ u := by
    intro t ht
    obtain ⟨v, now', hv, hev, rfl⟩ := hd.taken t ht
    rw [hc₁, heligible] at hev
    rw [hget] at hv
    split at hv
    · cases hv
      have := (TaskTable.isEligible_iff.1 hev).1
      cases this
    · rename_i hid
      refine ⟨v, now', hv, hev, rfl, ?_⟩
      rintro rfl
      exact hid rfl
  constructor
  case taken =>
    intro t ht
    rcases List.mem_cons.1 ht with rfl | ht
    · exact ⟨u, now, hu, he, rfl⟩
    · obtain ⟨v, now', hv, hev, e, -⟩ := hother t ht
      exact ⟨v, now', hv, hev, e⟩
  case complete =>
    intro i v hv hev
    rw [List.map_cons, List.mem_cons]
    by_cases hi : u.id = i
    · exact .inl hi.symm
    · refine .inr (hd.complete (u := v) ?_ ?_)
      · rw [hget, if_neg hi, hv]
      · rw [hc₁, heligible, hev]
  case sorted =>
    refine List.pairwise_cons.2 ⟨fun t ht => ?_, hd.sorted⟩
    obtain ⟨v, now', hv, hev, rfl, hne⟩ := hother t ht
    exact hleast _ v hv hev hne
  case status =>
    intro i
    rw [hd.status, hget]
    simp only [List.map_cons, List.mem_cons]
    by_cases hi : i ∈ ts.map Task.id
    · rw [if_pos hi, if_pos (.inr hi)]
    · by_cases hui : u.id = i
      · rw [if_neg hi, if_pos hui, if_pos (.inl hui.symm)]
        rfl
      · have hid : ¬ (i = (u.start now).id ∨ i ∈ ts.map Task.id) := not_or.2 ⟨Ne.symm hui, hi⟩
        rw [if_neg hi, if_neg hui, if_neg hid]
  case calm =>
    have hcalm : c.store.tasks.Calm c₁.store.tasks :=
      hc₁ ▸ .put (t := u.start now) hu (u.standing_start now hp)
    exact hcalm.trans hd.calm

end Drained

theorem Serves.nextTask_cases {c : Coordinator} {out : List Task} (h : c.Serves out)
    (asked started : Instant) :
    c.nextTask asked started = (none, c) ∧
      (∀ i u, c.store.tasks.get? i = some u → c.store.tasks.isEligible u = false) ∨
    ∃ u c₁, c.nextTask asked started = (some (u.start started), c₁) ∧
      c.store.tasks.get? u.id = some u ∧
      c.store.tasks.isEligible u = true ∧
      (∀ i v, c.store.tasks.get? i = some v → c.store.tasks.isEligible v = true → v ≠ u →
        compare u.queueKey v.queueKey = .lt) ∧
      c₁.store.tasks = c.store.tasks.put u (u.start started) ∧
      c₁.Serves (out ++ [u.start started]) ∧
      (u.start started).answer? = some (Assignment.ofTask (u.start started)).report := by
  rcases nextTask_spec (requeueOverdue_of_no_lease h.lease asked) h.sound.table.indexed started with
    hnone | ⟨u, hget, he, hleast, hout⟩
  · exact .inl hnone
  · have hserves := h.after (.nextTask asked started) (.of_draws_eq_nil rfl _) trivial
    rw [Coordinator.after, handsOut, hout] at hserves
    obtain ⟨_, _, _, _, _, hready⟩ := h.proper.exists_ready hget he
    exact .inr ⟨u, _, hout, hget, he, hleast, rfl, hserves, (hready.start started).answer?_eq⟩

theorem Drains.spec {clock : Nat → Instant × Instant} {n : Nat} {c c' : Coordinator}
    {ts : List Task} (hd : Drains clock n c ts c') : ∀ {out : List Task}, c.Serves out →
    c'.Serves (out ++ ts) ∧ c.Drained ts c' ∧
    ∀ t ∈ ts, t.answer? = some (Assignment.ofTask t).report := by
  induction hd with
  | stop hn =>
    intro out h
    rcases h.nextTask_cases _ _ with ⟨hstop, hnone⟩ | ⟨u, c₁, htake, -⟩
    · cases hstop.symm.trans hn
      exact ⟨by rwa [List.append_nil], .nil hnone, by simp⟩
    · cases htake.symm.trans hn
  | take hn _ ih =>
    intro out h
    rcases h.nextTask_cases _ _ with ⟨hstop, -⟩ |
      ⟨u, c₁, htake, hu, he, hleast, hc₁, hserves, hanswer⟩
    · cases hstop.symm.trans hn
    · cases htake.symm.trans hn
      obtain ⟨hserves, hdrained, hanswers⟩ := ih hserves
      rw [List.append_assoc] at hserves
      exact ⟨hserves, .cons hu he hleast hc₁ hdrained, List.forall_mem_cons.2 ⟨hanswer, hanswers⟩⟩

/--
Every call takes a task off the queue, so there are no more calls than tasks in the queue, and one.
-/
theorem Serves.exists_drains (clock : Nat → Instant × Instant) {c : Coordinator} {out : List Task}
    (h : c.Serves out) (n : Nat) : ∃ ts c', Drains clock n c ts c' := by
  induction hsize : c.store.tasks.queue.size using Nat.strongRecOn generalizing c out n with
  | ind size ih =>
    rcases h.nextTask_cases (clock n).1 (clock n).2 with ⟨hstop, -⟩ |
      ⟨u, c₁, htake, hu, he, -, hc₁, hserves, -⟩
    · exact ⟨[], c, .stop hstop⟩
    · have hp := (TaskTable.isEligible_iff.1 he).1
      have hqueued : u.queueKey ∈ c.store.tasks.queue :=
        h.sound.table.indexed.mem_queue.2 ⟨u, hu, hp, rfl⟩
      have hless : c₁.store.tasks.queue.size < size := by
        have hpos := List.length_pos_of_mem (Std.TreeSet.mem_toList.2 hqueued)
        rw [Std.TreeSet.length_toList] at hpos
        rw [hc₁, TaskTable.put_start hp, Std.TreeSet.size_erase,
          if_pos (Std.TreeSet.mem_iff_contains.1 hqueued)]
        omega
      obtain ⟨ts, c', hd⟩ := ih _ hless hserves (n + 1) rfl
      exact ⟨_, c', .take htake hd⟩

/-! ## Reports -/

def honestReport (report : Task × Instant) : Call :=
  .report report.1.id (Assignment.ofTask report.1).report report.2

structure Answered (c : Coordinator) (ids : List TaskId) (c' : Coordinator) : Prop where
  keeps : c.store.tasks.Keeps c'.store.tasks
  finished : ∀ ⦃i t⦄, i ∈ ids → c'.store.tasks.get? i = some t → t.isFinished = true
  status : ∀ ⦃i⦄, i ∉ ids → (c'.store.tasks.get? i).map Task.status =
    (c.store.tasks.get? i).map Task.status

theorem Answered.trans {c c₁ c₂ : Coordinator} {ids ids' : List TaskId} (h : c.Answered ids c₁)
    (h' : c₁.Answered ids' c₂) : c.Answered (ids ++ ids') c₂ where
  keeps := h.keeps.trans h'.keeps
  finished i t hi ht := by
    by_cases hi' : i ∈ ids'
    · exact h'.finished hi' ht
    · -- nothing has come for the task since it was finished
      have hstatus := h'.status hi'
      rw [ht] at hstatus
      obtain ⟨u, hu, e⟩ := Option.map_eq_some_iff.1 hstatus.symm
      have hfinished := h.finished ((List.mem_append.1 hi).resolve_right hi') hu
      rwa [Task.isFinished_iff, e, ← Task.isFinished_iff] at hfinished
  status i hi := by
    rw [List.mem_append, not_or] at hi
    exact (h'.status hi.2).trans (h.status hi.1)

theorem Serves.report {c : Coordinator} {out : List Task} (h : c.Serves out) {p : Task × Instant}
    (hout : p.1 ∈ out) (hanswer : p.1.answer? = some (Assignment.ofTask p.1).report) :
    (c.after (honestReport p)).Serves out ∧ c.Answered [p.1.id] (c.after (honestReport p)) := by
  have hserves := h.after_of_handsOut_eq_none (honestReport p) rfl (.of_draws_eq_nil rfl _)
    ⟨p.1, hout, rfl, hanswer⟩
  obtain ⟨g, hw, -⟩ := h.agrees.out p.1 hout
  obtain ⟨t, ht, -⟩ := hw.exists_get?
  have hi := h.sound.table.indexed
  refine ⟨hserves, ?_, fun i u hid hu => ?_, fun i hid => ?_⟩
  · have hkeeps :
        c.store.tasks.Keeps (c.store.tasks.reported t (Assignment.ofTask p.1).report p.2) :=
      TaskTable.keeps_reported (by rw [hi.id_eq ht, ht]) _ _
    rw [← tasks_report hi ht] at hkeeps
    exact hkeeps
  · obtain ⟨v, hv, hfinished⟩ := isFinished_report hi ht (Assignment.ofTask p.1).report p.2
    cases List.mem_singleton.1 hid
    cases hu.symm.trans hv
    exact hfinished
  · rw [List.mem_singleton] at hid
    exact (map_get?_report (fun _ _ _ => rfl) hi ht _ _ i).trans (if_neg (Ne.symm hid))

theorem Serves.reports {out : List Task} (reports : List (Task × Instant)) {c : Coordinator}
    (h : c.Serves out)
    (hr : ∀ p ∈ reports, p.1 ∈ out ∧ p.1.answer? = some (Assignment.ofTask p.1).report) :
    (c.run (reports.map honestReport)).Serves out ∧
      c.Answered (reports.map fun p => p.1.id) (c.run (reports.map honestReport)) := by
  induction reports generalizing c with
  | nil => exact ⟨h, .refl _, fun i t hi => (by cases hi), fun i _ => rfl⟩
  | cons p rest ih =>
    obtain ⟨⟨hout, hanswer⟩, hrest⟩ := List.forall_mem_cons.1 hr
    obtain ⟨hserves, hfirst⟩ := h.report hout hanswer
    obtain ⟨hend, hall⟩ := ih hserves hrest
    exact ⟨hend, hfirst.trans hall⟩

/-- After a wave what was eligible is finished, and the rest is as it was. -/
theorem Drained.of_answered {c mid c' : Coordinator} {ts : List Task} {ids : List TaskId}
    (hd : c.Drained ts mid) (ha : mid.Answered ids c') (hids : ∀ i, i ∈ ids ↔ i ∈ ts.map Task.id)
    {i : TaskId} {t : Task} (ht : c'.store.tasks.get? i = some t) :
    ∃ u, c.store.tasks.get? i = some u ∧
      if c.store.tasks.isEligible u then t.isFinished = true else t.status = u.status := by
  by_cases hi : i ∈ ts.map Task.id
  · have hfinished := ha.finished ((hids i).2 hi) ht
    obtain ⟨v, hv, rfl⟩ := List.mem_map.1 hi
    obtain ⟨u, -, hu, he, -⟩ := hd.taken v hv
    exact ⟨u, hu, by rwa [if_pos he]⟩
  · have hstatus := (ha.status (mt (hids i).1 hi)).trans (hd.status i)
    rw [if_neg hi, ht] at hstatus
    obtain ⟨u, hu, e⟩ := Option.map_eq_some_iff.1 hstatus.symm
    exact ⟨u, hu, by rw [if_neg fun he => hi (hd.complete hu he), e]⟩

end Reckoner.Coordinator

import Rawbin.Verify.ActiveCycle

/-!
# The end of a batch

Three branches of `update_cycle` assign an end time or a status, and none compares the end with the
start. What they assign is rolled back with the PATCH, so a batch has neither an end nor another
status, and the requests that would store an end before the start are refused with the others.
-/

namespace Rawbin

namespace CycleRequest

/-- The PATCH of the request, with the cycle. -/
def patch : CycleRequest → Option (Uuid × CompostCycleUpdate)
  | .create .. => none
  | .update _ id body _ => some (id, body)

/-- A batch that the request completes without giving its end has ended at the time of the
request. -/
def StampsEnd (r : CycleRequest) (now : Time) (cycles cycles' : Table Uuid CompostCycle) : Prop :=
  ∀ id c', cycles'.get? id = some c' → c'.status = .completed →
    (∀ c, cycles.get? id = some c → c.status ≠ .completed) →
    (∀ body, r.patch = some (id, body) → body.endedAt = none) → c'.endedAt = some now

/-- The end time that a PATCH leaves the batch with, at a time. -/
def endAfter (now : Time) (body : CompostCycleUpdate) (c : CompostCycle) : Option Time :=
  if needsEndTime body c then some now else (annotated body c).endedAt.or c.endedAt

/-- The request would have a batch end before it starts. -/
def EndsEarly (w : World) (r : CycleRequest) : Prop :=
  ∃ id body c t, r.patch = some (id, body) ∧ w.db.compostCycles.get? id = some c ∧
    endAfter w.now body c = some t ∧ t < c.startedAt

end CycleRequest

section
variable {E : Env} {w₀ w : World}

/-- A PATCH that would give an end to a batch without one is refused. -/
theorem PatchOutcome.refuses_end {credentials : String} {id : Uuid} {body : CompostCycleUpdate}
    {response : Response} {raised : Option Exn} {c : CompostCycle} {t : Time}
    (houtcome : PatchOutcome E w credentials id body response raised)
    (hc : w.db.compostCycles.get? id = some c) (hnone : c.endedAt = none)
    (hend : CycleRequest.endAfter w.now body c = some t) : response.isSuccess = false := by
  cases houtcome with
  | refused _ hs => exact hs
  | unchanged hc' hsame =>
    cases hc.symm.trans hc'
    have hneeds : needsEndTime body c = false :=
      Bool.eq_false_iff.mpr fun h => annotated_ne_of_needsEndTime h hsame
    simp [CycleRequest.endAfter, hneeds, hsame, hnone] at hend
  | expired | second => rfl

/-- **End times.** In every run a batch has an end time iff it is completed, and one that is
completed without an end in the request gets the time of the request. -/
theorem end_times (h₀ : w₀.db.compostCycles = .empty)
    (H : Reach (CycleEvent.apply E) (fun _ _ => True) w₀ w) :
    (∀ id c, w.db.compostCycles.get? id = some c →
      (c.endedAt.isSome = true ↔ c.status = .completed)) ∧
    ∀ r : CycleRequest, r.StampsEnd w.now w.db.compostCycles
      (serve E r.toRequest w).2.db.compostCycles := by
  refine ⟨fun id c hc => ?_, fun r id c' hc' hs _ _ => ?_⟩
  · obtain ⟨hs, hnone⟩ := (run_asCreated h₀ H).2 id c hc
    rw [hs, hnone]
    exact iff_of_false nofun nofun
  · -- the request is one more step of the run
    have H' : Reach (CycleEvent.apply E) (fun _ _ => True) w₀ ((CycleEvent.request r).apply E w) :=
      H.step trivial
    cases ((run_asCreated h₀ H').2 id c' hc').1.symm.trans hs

/-- **Start and end.** In every run a batch that has an end does not end before it starts; a request
that would store an earlier end is refused and leaves all cycles as they are. -/
theorem cycle_times (h₀ : w₀.db.compostCycles = .empty)
    (H : Reach (CycleEvent.apply E) (fun _ _ => True) w₀ w) :
    (∀ id c t, w.db.compostCycles.get? id = some c → c.endedAt = some t → c.startedAt ≤ t) ∧
    ∀ r : CycleRequest, r.EndsEarly w → (serve E r.toRequest w).1.isSuccess = false ∧
      (serve E r.toRequest w).2.db.compostCycles = w.db.compostCycles := by
  have hnew := (run_asCreated h₀ H).2
  refine ⟨fun id c t hc he => ?_, fun r hearly => ?_⟩
  · cases (hnew id c hc).2.symm.trans he
  · obtain ⟨id, body, c, t, hr, hc, hend, _⟩ := hearly
    cases r with
    | create => cases hr
    | update credentials id' body' draws =>
      cases hr
      have houtcome := @updateCycle_outcome E w credentials id body draws
      exact ⟨houtcome.1.refuses_end hc (hnew id c hc).2 hend,
        congrArg Db.compostCycles houtcome.2⟩

end

/-! ## A batch that starts tomorrow -/

namespace Sample

/-- Alice starts batch 1 with a time in the request. -/
def startAt (t : Time) : CycleRequest := .create alice 7 ⟨none, none, some t⟩ (draws 1)

/-- Alice gives batch 1 an end time. -/
def giveEnd (t : Time) : CycleRequest := .update alice 1 ⟨none, none, none, some t⟩ (draws 0)

end Sample

/-- Batch 1 is started, given an end time, and finished. -/
theorem annotated_end_times : ∃ w, Reach (CycleEvent.apply Sample.env) (fun _ _ => True)
      Sample.deviceWorld w ∧ w.db.compostCycles.contains 1 = true ∧
    ∀ id c, w.db.compostCycles.get? id = some c →
      (c.endedAt.isSome = true ↔ c.status = .completed) := by
  have H : Reach (CycleEvent.apply Sample.env) (fun _ _ => True) Sample.deviceWorld _ :=
    ((Reach.refl.step (e := .request (Sample.startCycle 1)) trivial).step
      (e := .request (Sample.giveEnd 5)) trivial).step
      (e := .request (Sample.setStatus 1 .completed)) trivial
  exact ⟨_, H, by decide +kernel, (end_times rfl H).1⟩

/-- A batch that starts tomorrow is not finished today. -/
theorem finished_before_start : ∃ w, Reach (CycleEvent.apply Sample.env) (fun _ _ => True)
      Sample.deviceWorld w ∧ (Sample.setStatus 1 .completed).EndsEarly w ∧
    (serve Sample.env (Sample.setStatus 1 .completed).toRequest w).1.isSuccess = false ∧
    (serve Sample.env (Sample.setStatus 1 .completed).toRequest w).2.db.compostCycles =
      w.db.compostCycles := by
  have H : Reach (CycleEvent.apply Sample.env) (fun _ _ => True) Sample.deviceWorld _ :=
    Reach.refl.step (e := .request (Sample.startAt (days 1))) trivial
  have hearly : (Sample.setStatus 1 .completed).EndsEarly
      (CycleEvent.apply Sample.env (.request (Sample.startAt (days 1))) Sample.deviceWorld) := by
    refine ⟨1, _, ⟨7, .active, days 1, none, none, none, 0, 0⟩, 0, rfl, ?_, ?_, ?_⟩ <;>
      decide +kernel
  exact ⟨_, H, hearly, (cycle_times rfl H).2 _ hearly⟩

end Rawbin

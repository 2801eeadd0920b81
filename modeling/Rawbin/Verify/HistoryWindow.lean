import Rawbin.Library.Groups
import Rawbin.Verify.Sequential

/-!
# The window of a history

`get_telemetry_history` fills in the bounds that the client leaves out, compares them, and reads.
The defaults are aware; a bound of the client may be naive, and a naive and an aware bound do not
compare.
-/

namespace Rawbin

/-- The bounds of the window, with the defaults for those that are missing. -/
def historyWindow (interval : Interval) (start stop : Option PyDatetime) (now : Time) :
    PyDatetime × PyDatetime :=
  (start.getD ⟨now - defaultWindow interval, true⟩, stop.getD ⟨now, true⟩)

/-- What the tier reads between two instants. -/
def Db.history (db : Db) (d : Uuid) (interval : Interval) (start stop : Time) : HistoryReadings :=
  match interval with
  | .raw => .raw ((Query.readings d start stop).eval db)
  | .hour => .points (db.hourlyBetween d start stop)
  | .day => .points (dailyRollup (db.hourlyBetween d start stop))

/-- The response to a member, by the bounds of the window. -/
def historyAnswer (db : Db) (d : Uuid) (interval : Interval) (start stop : PyDatetime) : Response :=
  match stop.le start with
  | .error e => e.response
  | .ok true => ⟨400, .detail "`to` must be after `from`.", []⟩
  | .ok false =>
    if interval = .raw ∧ stop.instant - start.instant > hours 24 then
      ⟨400, .detail
        "Raw interval window cannot exceed 24 hours. Use interval=hour for longer ranges.", []⟩
    else
      let readings := db.history d interval start.instant stop.instant
      ⟨200, .history ⟨d, interval, start, stop, readings.count, readings⟩, []⟩

/-- A member is answered by the window; who is no member is told nothing. -/
def HistoryOutcome (E : Env) (credentials : String) (d : Uuid) (interval : Interval)
    (start stop : Option PyDatetime) (w : World) (response : Response) : Prop :=
  response = historyAnswer w.db d interval (historyWindow interval start stop w.now).1
      (historyWindow interval start stop w.now).2 ∨
    (∃ text, response.body = .detail text) ∧
      ∀ u user device, Authenticated E credentials u user w → ¬ DeviceMember d u device w

section
variable {E : Env} {w : World} {credentials : String} {d : Uuid} {interval : Interval}
variable {start stop : Option PyDatetime} {draws : Draws}

theorem historyReadings_ends {Q : Except Exn γ → Session → World → Prop} {t : Session}
    {start stop : Time} {pend : List Write} {k : HistoryReadings × List Write → Prog Cmd Exn γ}
    (ht : t.written = [])
    (h : ∀ t', t'.written = [] → Ends Q t' w (k (w.db.history d interval start stop, pend))) :
    Ends Q t w ((historyReadings d interval start stop pend).bind k) := by
  cases interval with
  | raw => exact select_ends ht fun t' ht' => h t' ht'
  | hour => exact select_ends ht fun t' ht' => h t' ht'
  | day => exact select_ends ht fun t' ht' => h t' ht'

theorem history_outcome : HistoryOutcome E credentials d interval start stop w
    (serve E (.user credentials (.getTelemetryHistory d interval start stop) draws) w).1 := by
  refine serve_ends (P := fun response _ =>
    HistoryOutcome E credentials d interval start stop w response) ?_
  refine getCurrentUser_ends rfl (fun t hnone => ?_) fun t u user ht hu => ?_
  · exact .inr ⟨⟨_, rfl⟩, fun u user _ hu => (hnone u user hu).elim⟩
  refine assertDeviceMember_ends ht (fun t hnone => ?_) fun t device ht hm => ?_
  · refine .inr ⟨⟨_, rfl⟩, fun u' user' device hu' hm => hnone device ?_⟩
    rwa [(hu.unique hu').1]
  refine utcnow_ends ?_
  simp only [Prog.pure_bind, Handler.bind_apply]
  generalize hanswer : historyAnswer w.db d interval (historyWindow interval start stop w.now).1
    (historyWindow interval start stop w.now).2 = answer
  rw [historyAnswer] at hanswer
  have hdone : ∀ response, response = answer →
      HistoryOutcome E credentials d interval start stop w response := by
    rintro response rfl
    exact .inl hanswer.symm
  refine ofExcept_ends (fun e he => hdone _ ?_) fun empty he => ?_
  · rw [historyWindow, he] at hanswer
    exact hanswer
  rw [historyWindow, he] at hanswer
  cases empty with
  | true => exact raiseIf_ends (fun _ => hdone _ hanswer) fun h => absurd rfl h
  | false =>
    refine raiseIf_ends nofun fun _ => ?_
    refine raiseIf_ends (fun hlong => hdone _ ?_) fun hlong => ?_
    · exact (if_pos hlong).symm.trans hanswer
    refine historyReadings_ends ht fun t ht => hdone _ ?_
    exact (if_neg hlong).symm.trans hanswer

theorem historyAnswer_of_aware {start stop : PyDatetime} {db : Db} (h : start.aware = stop.aware) :
    historyAnswer db d interval start stop =
      if stop.instant ≤ start.instant then ⟨400, .detail "`to` must be after `from`.", []⟩
      else if interval = .raw ∧ stop.instant - start.instant > hours 24 then
        ⟨400, .detail
          "Raw interval window cannot exceed 24 hours. Use interval=hour for longer ranges.", []⟩
      else
        let readings := db.history d interval start.instant stop.instant
        ⟨200, .history ⟨d, interval, start, stop, readings.count, readings⟩, []⟩ := by
  rw [historyAnswer, PyDatetime.le, if_pos h.symm]
  by_cases hle : stop.instant ≤ start.instant
  · rw [if_pos hle, decide_eq_true hle]
  · rw [if_neg hle, decide_eq_false hle]

end

/-! ## A naive bound -/

/-- Alice asks for the history of device 7. -/
def Sample.history (interval : Interval) (start stop : Option PyDatetime) : Request :=
  .user (Sample.jwtEncode ⟨1, .access, 0, 0, 0⟩) (.getTelemetryHistory 7 interval start stop)
    (Sample.draws 0)

end Rawbin

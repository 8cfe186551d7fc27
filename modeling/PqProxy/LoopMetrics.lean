import PqProxy.LoopShutdown
import PqProxy.Metrics

/-! What the log tells of a run: the connections that were accepted and closed, beside those in use. -/

open Exposition (readFields)

/-- `count_active_frontends`. -/
def countActiveFrontends (s : Server) : Nat :=
  (List.finRange maxConns).countP fun i => (s.conns i).state ≠ .free

/-- `pqproxy_backend_pool_live_count`. -/
def poolLiveCount (p : Pool) : Nat := (List.range p.maxConns).countP fun b => (p.conns b).alive

/-- The metrics when `server_tick` logs them: two of the counters are the accounts of the run, and the gauges
have just been set. -/
def Metrics.atTick (m : Metrics) (s : Server) (b : Books) : Metrics :=
  ({ m with accepts := .ofNat b.accepts, frontendCloses := .ofNat b.closes } : Metrics).apply
    (.setGauges (.ofNat ((s.pool.map poolLiveCount).getD 0)) (.ofNat (countActiveFrontends s)))

theorem countActiveFrontends_eq (s : Server) : countActiveFrontends s = (inUse s.conns).card := by
  have hnodup : ((List.finRange maxConns).filter fun i => (s.conns i).state ≠ .free).Nodup :=
    (List.nodup_finRange maxConns).filter _
  have hsame : ((List.finRange maxConns).filter fun i => (s.conns i).state ≠ .free).toFinset =
      inUse s.conns := by
    ext i
    simp [inUse]
  rw [countActiveFrontends, List.countP_eq_length_filter, ← hsame, List.toFinset_card_of_nodup hnodup]

theorem countActiveFrontends_le (s : Server) : countActiveFrontends s ≤ maxConns := by
  have h := List.countP_le_length (p := fun i => decide ((s.conns i).state ≠ .free)) (l := List.finRange maxConns)
  rwa [List.length_finRange] at h

section

variable {w : Pqwire} {env : Env}

/-- In every run in which every `accept_one` got as far as the state of its slot, and whatever the other
counters are: who reads the log line of the next tick finds that the accepts are the closes and the
connections in use together, as far as 64 bits tell. -/
theorem log_line_balanced {cfg : Config} {nonblock : Bool} {now : Nat} {inputs : List Input} (m : Metrics)
    (hrun : Runs.Along (bookStep w env) (fun x input => Completes x.1 input)
      (start env cfg nonblock now, .empty) inputs) :
    let x := Runs.run (bookStep w env) (start env cfg nonblock now, .empty) inputs
    let line := readFields ' ' '=' (metricsFormat (m.atTick x.1 x.2) 768)
    ∃ accepts closes active, ("accepts".toList, accepts) ∈ line ∧ ("closes".toList, closes) ∈ line ∧
      ("active_fe".toList, active) ∈ line ∧ accepts = (closes + active) % 2 ^ 64 ∧ active ≤ maxConns := by
  obtain ⟨-, hagrees⟩ := run_agrees hrun
  dsimp only
  generalize Runs.run (bookStep w env) (start env cfg nonblock now, .empty) inputs = x at hagrees
  obtain ⟨s, b⟩ := x
  dsimp only at hagrees ⊢
  rw [(logged_metrics (m.atTick s b)).1]
  have hsmall : countActiveFrontends s < 2 ^ 64 := (countActiveFrontends_le s).trans_lt (by decide)
  have hcount : b.accepts = b.closes + countActiveFrontends s := by
    rw [countActiveFrontends_eq]
    exact hagrees.count
  refine ⟨(m.atTick s b).accepts.toNat, (m.atTick s b).frontendCloses.toNat,
    (m.atTick s b).activeFrontends.toNat, ?_, ?_, ?_, ?_, ?_⟩
  · simp [Metrics.fields]
  · simp [Metrics.fields]
  · simp [Metrics.fields]
  · change (UInt64.ofNat b.accepts).toNat =
      ((UInt64.ofNat b.closes).toNat + (UInt64.ofNat (countActiveFrontends s)).toNat) % 2 ^ 64
    rw [UInt64.toNat_ofNat', UInt64.toNat_ofNat', UInt64.toNat_ofNat', ← Nat.add_mod, hcount]
  · change (UInt64.ofNat (countActiveFrontends s)).toNat ≤ maxConns
    rw [UInt64.toNat_ofNat', Nat.mod_eq_of_lt hsmall]
    exact countActiveFrontends_le s

/-- One of two connections that were accepted is closed. -/
theorem log_line_balanced_two :
    let x := smallBooks [accepts 0, accepts 1, .complete 0 0 .eof]
    ∃ accepts closes active,
      ("accepts".toList, accepts) ∈ readFields ' ' '=' (metricsFormat (Metrics.zero.atTick x.1 x.2) 768) ∧
      ("closes".toList, closes) ∈ readFields ' ' '=' (metricsFormat (Metrics.zero.atTick x.1 x.2) 768) ∧
      ("active_fe".toList, active) ∈ readFields ' ' '=' (metricsFormat (Metrics.zero.atTick x.1 x.2) 768) ∧
      accepts = (closes + active) % 2 ^ 64 ∧ active ≤ maxConns :=
  log_line_balanced Metrics.zero (by decide +kernel)

end

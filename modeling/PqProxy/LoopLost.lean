import PqProxy.LoopResults

/-! A backend that fails while a pipeline runs on it. The client is told so at once. What belongs to the
pipeline and was not yet taken up is taken up all the same, since the queue stays as it is. -/

section

variable {w : Pqwire} {env : Env} {i : Slot} {s : Server}

/-- The handler of a completion has reported a failure; whatever follows only adds to the history. -/
theorem told_closed {r : Request} {x : Server × Bool} (hs : s.Good none)
    (hland : LandedTo w r.op r.slot s x) (htold : (s.conns r.slot).TellsLoss (x.1.conns r.slot)) :
    (s.conns r.slot).TellsLoss ((closeUnless env (drainQueue w env) x r.slot).conns r.slot) := by
  obtain ⟨⟨t, hturn, hends⟩, hgood⟩ := hland
  have hopenT : (t.conns r.slot).Open := hturn.land.keeps.open (hturn.land.open (hs.tidy r.slot))
  have hopen : (x.1.conns r.slot).Open := by
    rcases hends with ⟨-, hpath, -⟩ | ⟨rfl, -⟩
    · exact (hpath.keeps r.slot).1.open hopenT
    · exact hopenT
  obtain ⟨hsame, hend, -⟩ := closeUnless_spec (w := w) env (fun _ => hgood.exempt _) hopen.1 fun _ => hgood
  cases hok : x.2 with
  | true =>
      rw [hsame hok]
      exact htold
  | false =>
      obtain ⟨behind, hlog⟩ := htold
      obtain ⟨l, hl⟩ := (hend hok).changes.log r.slot
      exact ⟨behind ++ l, by rw [hl, hlog]; simp⟩

/-- A failure of a backend is reported as soon as it completes. -/
theorem dispatchTo_fails (hw : w.Appends) (hs : s.Good none) {r : Request} {cqe : Cqe}
    (hbe : (s.conns r.slot).be ≠ none) (hfails : s.Fails w r.slot r.op cqe) :
    (s.conns r.slot).TellsLoss
      ((dispatchTo w env (drainQueue w env) s r.op r.slot cqe).conns r.slot) := by
  obtain ⟨b, hb⟩ := Option.ne_none_iff_exists'.mp hbe
  have hgo : ¬ ((s.conns r.slot).state = .free ∨ (s.conns r.slot).be = none) :=
    not_or.mpr ⟨(hs.toSound.open_of_be hb).1, hbe⟩
  unfold dispatchTo
  cases hop : r.op with
  | beSend =>
      obtain ⟨hland, htells⟩ := onBeSendCqe_spec (w := w) env hs hb cqe
      rw [hop] at hfails
      dsimp only
      rw [if_neg hgo]
      rw [← hop] at hland
      exact told_closed hs hland (htells hw hfails)
  | beRecv =>
      obtain ⟨hland, htells⟩ := onBeRecvCqe_spec (w := w) env hs hb cqe
      rw [hop] at hfails
      dsimp only
      rw [if_neg hgo]
      rw [← hop] at hland
      exact told_closed hs hland (htells hw hfails)
  | _ =>
      rw [hop] at hfails
      exact absurd hfails id

/-- An iteration that ends with a completion. -/
theorem step_dispatchTo {now k : Nat} {r : Request} {cqe : Cqe} (hr : s.inflight[k]? = some r) :
    step w env s (.complete now k cqe) = submitAll (dispatchTo w env (drainQueue w env)
      (serverTick env { s with inflight := s.inflight.eraseIdx k } now) r.op r.slot cqe) := by
  unfold step dispatch
  dsimp only
  rw [hr]
  rfl

/-- An iteration that ends with the failure of a backend. -/
theorem step_fails (env : Env) (now : Nat) (hw : w.Appends) (hs : s.Ready) {k : Nat} {r : Request}
    {cqe : Cqe} (hr : s.inflight[k]? = some r) (hbe : (s.conns r.slot).be ≠ none)
    (hfails : s.Fails w r.slot r.op cqe) :
    (s.conns r.slot).TellsLoss ((step w env s (.complete now k cqe)).conns r.slot) := by
  have herase : ({ s with inflight := s.inflight.eraseIdx k } : Server).Good none :=
    hs.good.erase fun x hx => List.mem_of_mem_eraseIdx hx
  obtain ⟨hmaint, hgood⟩ := maintained_serverTick w env herase now
  have hheld := Conn.Paired.maintained_held herase.toOwned hmaint r.slot
  have hconns := hmaint.conns
  rw [step_dispatchTo hr]
  generalize serverTick env { s with inflight := s.inflight.eraseIdx k } now = t at hconns hgood hheld
  have hconn : t.conns r.slot = s.conns r.slot := congrFun hconns r.slot
  rw [← hconn] at hbe ⊢
  refine (dispatchTo_fails hw hgood hbe ?_ : (t.conns r.slot).TellsLoss
    ((dispatchTo w env (drainQueue w env) t r.op r.slot cqe).conns r.slot))
  have hsame : t.held r.slot = s.held r.slot := hheld
  unfold Server.Fails at hfails ⊢
  rw [hsame, hconn]
  exact hfails

/-- What a client is told of pipelines that are lost. A request to a backend that fails is followed by one
ErrorResponse and one ReadyForQuery; and no request of a pipeline that was lost is taken up before the
next Sync. -/
structure Server.ReportsLoss (w : Pqwire) (env : Env) (s : Server) (i : Slot) : Prop where
  fails : ∀ now k r cqe, s.inflight[k]? = some r → r.slot = i → (s.conns i).be ≠ none →
    s.Fails w i r.op cqe → (s.conns i).TellsLoss ((step w env s (.complete now k cqe)).conns i)
  lost : ∀ before rest, (s.conns i).log = before ++ .lost :: rest →
    ∃ behind, rest = .replied pipelineError :: .replied .readyForQuery :: behind
  skips : .crossed ∉ (s.conns i).log → ¬ Overflowed (s.conns i).log →
    Requests.All (Requests.heeds .lost) (spoken (s.conns i).log)

/-- The backend goes away before the Execute and the Sync come, and those come behind the next Bind. -/
def aloneInputs : List Input :=
  [accepts 0, receives 0 [.startup, .parse smallParse, .bind smallBind], .complete 0 1 .eof]

end

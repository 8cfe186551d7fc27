import PqProxy.LoopOwnership

/-! What the functions of the event loop enter into the history of a connection. Most of them only
enter what goes out, and what could not be done; the other entries are the marks by which one can tell
what happened. -/

/-- Entries about the output of a connection, and about what it could not do. -/
def Obs.aside : Obs → Bool
  | .dropped _ | .replied _ | .handed .. | .queued _ | .refused _ | .noSqe | .unarmed | .crossed
  | .beData _ | .ran _ | .executing _ | .forwarded _ | .cacheFull => true
  | _ => false

/-- A connection goes on, and only entries in `S` are made. -/
def Enters (S : Obs → Prop) (c c' : Conn) : Prop := ∃ l, c'.log = c.log ++ l ∧ ∀ o ∈ l, S o

namespace Enters

variable {S : Obs → Prop}

theorem of_log {c c' : Conn} (h : c'.log = c.log) : Enters S c c' := ⟨[], by simp [h], by simp⟩

theorem note (c : Conn) {o : Obs} (ho : S o) : Enters S c (c.note o) := ⟨[o], rfl, by simpa using ho⟩

theorem trans {a b c : Conn} (h : Enters S a b) (k : Enters S b c) : Enters S a c := by
  obtain ⟨l, hl, hall⟩ := h
  obtain ⟨m, hm, kall⟩ := k
  refine ⟨l ++ m, by rw [hm, hl, List.append_assoc], fun o ho => ?_⟩
  exact (List.mem_append.mp ho).elim (hall o) (kall o)

theorem mono {S' : Obs → Prop} (hS : ∀ o, S o → S' o) {c c' : Conn} (h : Enters S c c') :
    Enters S' c c' := by
  obtain ⟨l, hl, hall⟩ := h
  exact ⟨l, hl, fun o ho => hS o (hall o ho)⟩

theorem mem {c c' : Conn} (h : Enters S c c') {o : Obs} (ho : o ∈ c'.log) : o ∈ c.log ∨ S o := by
  obtain ⟨l, hl, hall⟩ := h
  rw [hl] at ho
  exact (List.mem_append.mp ho).imp_right (hall o)

end Enters

/-- Entries about the output of a connection and its requests. -/
def Obs.output : Obs → Bool
  | .replied _ | .handed .. | .queued _ | .refused _ | .noSqe | .unarmed | .crossed => true
  | _ => false

/-- A connection goes on, and only its output is entered. -/
def Outputs (c c' : Conn) : Prop := Enters (fun o => o.output = true) c c'

/-- A connection goes on, and only asides are entered. -/
def Asides (c c' : Conn) : Prop := Enters (fun o => o.aside = true) c c'

namespace Asides

theorem of_log {c c' : Conn} (h : c'.log = c.log) : Asides c c' := Enters.of_log h

theorem note (c : Conn) {o : Obs} (ho : o.aside = true) : Asides c (c.note o) := Enters.note c ho

theorem trans {a b c : Conn} (h : Asides a b) (k : Asides b c) : Asides a c := Enters.trans h k

end Asides

theorem aside_of_output {o : Obs} (h : o.output = true) : o.aside = true := by
  cases o <;> first | rfl | exact absurd h nofun

namespace Outputs

theorem of_log {c c' : Conn} (h : c'.log = c.log) : Outputs c c' := Enters.of_log h

theorem refl (c : Conn) : Outputs c c := of_log rfl

theorem note (c : Conn) {o : Obs} (ho : o.output = true) : Outputs c (c.note o) := Enters.note c ho

theorem trans {a b c : Conn} (h : Outputs a b) (k : Outputs b c) : Outputs a c := Enters.trans h k

theorem asides {c c' : Conn} (h : Outputs c c') : Asides c c' := h.mono fun _ => aside_of_output

end Outputs

section

variable {w : Pqwire}

theorem outputs_io {extra : Bytes} {c c' : Cell} (h : Io extra c c') : Outputs c.conn c'.conn := by
  obtain ⟨l, hl, hio, -⟩ := h.log
  refine ⟨l, hl, fun o ho => ?_⟩
  have := hio o ho
  cases o <;> first | rfl | cases this

theorem outputs_reply (c : Conn) (r : Reply) : Outputs c (reply w c r).1 := by
  rcases reply_cases w c r with ⟨-, h⟩ | ⟨-, h⟩
  · rw [h]
    exact ⟨[.replied r], rfl, by simp [Obs.output]⟩
  · rw [h]
    exact .refl c

theorem outputs_replyThen (c : Conn) (r r' : Reply) : Outputs c (replyThen w c r r').1 := by
  have hfirst := outputs_reply (w := w) c r
  unfold replyThen
  generalize reply w c r = res at hfirst
  obtain ⟨c₁, ok⟩ := res
  cases ok with
  | false => exact hfirst
  | true => exact hfirst.trans (outputs_reply c₁ r')

theorem outputs_replyBoth (c : Conn) (r r' : Reply) : Outputs c (replyBoth w c r r') :=
  (outputs_reply c r).trans (outputs_reply _ r')

theorem outputs_queueBackend (c : Cell) (data : Bytes) :
    Outputs c.conn (queueBackend c data).1.conn :=
  (Outputs.note c.conn (o := .handed c.conn.frontend data) rfl).trans
    (outputs_io (queuePlainSend_io (c.note (.handed c.conn.frontend data)) data).1)

theorem asides_answerParse (cfg : Config) (c : Conn) (parse : PqParse) :
    Asides c (answerParse w cfg c parse) := by
  obtain ⟨cache, h | h⟩ := answerParse_cases (w := w) cfg c parse
  · rw [h]
    exact ⟨[.replied .parseComplete], rfl, by simp [Obs.aside]⟩
  · rw [h]
    have hfull : Asides c ({ c with cache := cache }.note .cacheFull) :=
      ⟨[.cacheFull], rfl, by simp [Obs.aside]⟩
    exact hfull.trans (outputs_replyBoth _ _ _).asides

theorem asides_answerExecute (hasPool : Bool) (c : Conn) :
    Asides c (answerExecute w hasPool c).1 := by
  rcases answerExecute_cases w hasPool c with ⟨-, h⟩ | ⟨-, -, h⟩
  · rw [h]
    exact (Asides.note c rfl).trans (outputs_reply _ _).asides
  · rw [h]
    exact .note c rfl

theorem asides_answerSync (c : Cell) : Asides c.conn (answerSync w c).1.conn := by
  have hqueue := (outputs_queueBackend c c.conn.beResp.bytes).asides
  unfold answerSync
  split
  · generalize queueBackend c c.conn.beResp.bytes = r at hqueue
    obtain ⟨c₁, _ | _⟩ := r
    · exact hqueue
    · exact hqueue.trans (.of_log rfl)
  · exact (outputs_reply _ _).asides

theorem asides_answerQueuedSync (c : Cell) : Asides c.conn (answerQueuedSync w c).conn := by
  unfold answerQueuedSync
  split
  · exact (outputs_queueBackend c _).asides.trans (.of_log rfl)
  · exact (outputs_reply _ _).asides

theorem asides_forwarded (c : Conn) (r : ExecResult) :
    Asides c ((c.note (.forwarded c.beResp.len)).fillResp r) :=
  ⟨[.forwarded c.beResp.len], rfl, by simp [Obs.aside]⟩

theorem asides_answerQuery (c : Cell) (r : ExecResult) :
    Asides c.conn (answerQuery w c r).1.conn := by
  unfold answerQuery
  refine (asides_forwarded c.conn r).trans ?_
  dsimp only
  split
  · exact (outputs_queueBackend _ _).asides
  · exact (outputs_replyThen _ _ _).asides

theorem asides_answerQueuedQuery (c : Cell) (r : ExecResult) :
    Asides c.conn (answerQueuedQuery w c r).conn := by
  unfold answerQueuedQuery
  refine (asides_forwarded c.conn r).trans ?_
  dsimp only
  split
  · exact (outputs_queueBackend _ _).asides
  · exact (outputs_replyBoth _ _ _).asides

/-- The local acknowledgement of a Bind tells what is known of it. -/
theorem enters_answerBind {S : Obs → Prop} (c : Conn) (why : Unrun) (r : Option ExecResult)
    (hstub : ∀ written, S (.stub why written)) (haside : ∀ o : Obs, o.aside = true → S o) :
    Enters S c (answerBind w c why r).1 := by
  have hreply : ∀ (c : Conn) (r : Reply), Enters S c (reply w c r).1 :=
    fun c r => (outputs_reply c r).asides.mono haside
  unfold answerBind
  cases r with
  | none => exact (Enters.note c (hstub [])).trans (hreply _ _)
  | some r =>
      have hfill : Enters S c (c.fillResp r) := .of_log rfl
      dsimp only
      split
      · exact (hfill.trans (.of_log rfl)).trans ((Enters.note _ (haside _ rfl)).trans (hreply _ _))
      · exact hfill.trans ((Enters.note _ (hstub r.written)).trans (hreply _ _))

/-- What `backend_async_complete` sends. -/
theorem outputs_sendResult (c : Cell) (hadError : Bool) :
    Outputs c.conn (sendResult w c hadError).1.conn := by
  have hqueue := outputs_queueBackend c c.conn.beResp.bytes
  unfold sendResult
  split
  · generalize queueBackend c c.conn.beResp.bytes = r at hqueue
    obtain ⟨c₁, _ | _⟩ := r
    · exact hqueue
    · exact hqueue.trans (.of_log rfl)
  · split
    · generalize queueBackend c c.conn.beResp.bytes = r at hqueue
      obtain ⟨c₁, _ | _⟩ := r
      · exact hqueue
      · exact hqueue.trans (.of_log rfl)
    · split
      · exact outputs_reply _ _
      · exact .refl _

/-- The delivery of a result is entered, with the queue when that is emptied. -/
theorem outputs_deliverResult (c : Cell) (hadError : Bool) :
    Outputs (if hadError = true then feqClearAll (c.conn.note (.completed true))
      else c.conn.note (.completed false)) (deliverResult w c hadError).1.conn := by
  have hfirst : Outputs (if hadError = true then feqClearAll (c.conn.note (.completed true))
      else c.conn.note (.completed false)) (if hadError = true then
      ({ feqClearAll (c.conn.note (.completed hadError)) with gotExecute := false }, true)
      else reply w (c.conn.note (.completed hadError)) .bindComplete).1 := by
    cases hadError with
    | false => exact outputs_reply _ _
    | true => exact .of_log rfl
  generalize (if hadError = true then feqClearAll (c.conn.note (.completed true))
      else c.conn.note (.completed false)) = d at hfirst ⊢
  unfold deliverResult
  dsimp only
  generalize (if hadError = true then
      ({ feqClearAll (c.conn.note (.completed hadError)) with gotExecute := false }, true)
      else reply w (c.conn.note (.completed hadError)) .bindComplete) = r at hfirst ⊢
  obtain ⟨conn, ok⟩ := r
  cases ok with
  | false => exact hfirst
  | true =>
      have hsend := outputs_sendResult (w := w) { c with conn := conn } hadError
      rw [if_neg (by simp)]
      generalize sendResult w { c with conn := conn } hadError = r at hsend ⊢
      obtain ⟨c₁, _ | _⟩ := r
      · exact hfirst.trans hsend
      · exact (hfirst.trans hsend).trans (outputs_io (drainFrontendOut_io c₁).1)

theorem outputs_reportLost (c : Cell) : Outputs (c.conn.note .lost) (reportLost w c).1.conn := by
  have hreset : Outputs (c.conn.note .lost) { (c.conn.note .lost).emptyResp with be := none } :=
    .of_log rfl
  exact (hreset.trans (outputs_replyBoth _ pipelineError .readyForQuery)).trans
    (outputs_io (drainFrontendOut_io _).1)

/-! ### Requests -/

theorem outputs_prep (c : Cell) (r : Request) {mark : Conn → Conn}
    (hmark : (mark c.conn).log = c.conn.log) : Outputs c.conn (c.prep r mark).1.conn := by
  rcases prep_cases c r mark with h | h
  · rw [h]
    exact .of_log hmark
  · rw [h]
    exact .note c.conn rfl

theorem outputs_submitBeRecv (backends : Nat → BackendConn) (c : Cell) :
    Outputs c.conn (submitBeRecv backends c).1.conn := by
  unfold submitBeRecv
  split
  · exact .refl c.conn
  · split
    · exact .refl c.conn
    · exact outputs_prep c _ rfl

theorem outputs_submitBeSend (backends : Nat → BackendConn) (c : Cell) :
    Outputs c.conn (submitBeSend backends c).1.conn := by
  unfold submitBeSend
  split
  · exact .refl c.conn
  · split
    · exact .note c.conn rfl
    · split
      · exact outputs_submitBeRecv backends { c with conn := { c.conn with beWait := .reading } }
      · exact outputs_prep c _ rfl

/-- A pipeline is begun for a backend that was checked out. -/
theorem outputs_startOn (c : Cell) (b : Nat) (h : BackendConn) :
    Outputs (c.conn.checkingOut.note .began) (c.startOn b h).1.conn := by
  have hbegin : Outputs (c.conn.checkingOut.note .began) (c.conn.begun b) := by
    refine .of_log ?_
    rw [begun_eq]
    rfl
  rw [startOn_eq]
  exact hbegin.trans (outputs_submitBeSend (fun _ => h) { c with conn := c.conn.begun b })

/-- The request that an event becomes when it is queued. -/
def Event.item (w : Pqwire) : Event → Option FeqItem
  | .parse msg => some (.parse msg)
  | .bind msg => (bindItem w msg).map .bind
  | .execute => some .execute
  | .sync => some .sync
  | .query sql => some (.query (sql.copyTo w.maxQueryLen))
  | _ => none

/-- A queued message is put at the tail of the queue, or dropped. -/
theorem queueEvent_entries (c : Conn) (e : Event) :
    (∃ it, e.item w = some it ∧ (queueEvent w c e).log = c.log ++ [.pushed it]) ∨
      ∃ l, (queueEvent w c e).log = c.log ++ l ∧ (∀ o ∈ l, o.aside = true) ∧
        (e.item w ≠ none ∨ (∃ bind, e = .bind bind) → ∃ it, .dropped it ∈ l) := by
  have hdrop : ∀ {it : FeqItem} {c' : Conn}, Asides (c.note (.dropped it)) c' →
      ∃ l, c'.log = c.log ++ l ∧ (∀ o ∈ l, o.aside = true) ∧
        (e.item w ≠ none ∨ (∃ bind, e = .bind bind) → ∃ it, .dropped it ∈ l) := by
    rintro it c' ⟨l, hl, hall⟩
    refine ⟨.dropped it :: l, by simp [hl, Conn.note], ?_, fun _ => ⟨it, List.mem_cons_self⟩⟩
    rintro o (_ | ⟨_, ho⟩)
    · rfl
    · exact hall o ho
  have hpushed : ∀ (c : Conn) (q : RingBuffer FeqItem feQMax) (it : FeqItem),
      (({ c with feQ := q } : Conn).note (.pushed it)).log = c.log ++ [.pushed it] :=
    fun _ _ _ => rfl
  cases e with
  | parse msg =>
      simp only [queueEvent, feqPushParse]
      rcases feqPush_cases c (.parse msg) with ⟨q, -, h⟩ | h
      · rw [h]
        exact Or.inl ⟨_, rfl, hpushed c q _⟩
      · rw [h]
        exact Or.inr (hdrop (outputs_reply _ _).asides)
  | bind msg =>
      simp only [queueEvent]
      rcases feqPushBind_cases (w := w) c msg with ⟨it, hit, hpush⟩ | hpush
      · rw [hpush]
        rcases feqPush_cases c (.bind it) with ⟨q, -, h⟩ | h
        · rw [h]
          exact Or.inl ⟨_, by simp only [Event.item, hit, Option.map_some], hpushed c q _⟩
        · rw [h]
          exact Or.inr (hdrop (outputs_replyBoth _ _ _).asides)
      · rw [hpush]
        exact Or.inr (hdrop (outputs_replyBoth _ _ _).asides)
  | execute =>
      simp only [queueEvent]
      rcases feqPush_cases c .execute with ⟨q, -, h⟩ | h
      · rw [h]
        exact Or.inl ⟨_, rfl, hpushed c q _⟩
      · rw [h]
        exact Or.inr (hdrop (.of_log rfl))
  | sync =>
      simp only [queueEvent]
      rcases feqPush_cases c .sync with ⟨q, -, h⟩ | h
      · rw [h]
        exact Or.inl ⟨_, rfl, hpushed c q _⟩
      · rw [h]
        exact Or.inr (hdrop (.of_log rfl))
  | query sql =>
      simp only [queueEvent]
      rcases feqPush_cases c (.query (sql.copyTo w.maxQueryLen)) with ⟨q, -, h⟩ | h
      · rw [h]
        exact Or.inl ⟨_, rfl, hpushed c q _⟩
      · rw [h]
        exact Or.inr (hdrop (outputs_replyBoth _ _ _).asides)
  | _ =>
      refine Or.inr ⟨[], (List.append_nil _).symm, by simp, ?_⟩
      rintro (h | ⟨_, h⟩) <;> simp [Event.item] at h

theorem enters_feqPop {S : Obs → Prop} {c c' : Conn} {it : FeqItem} (h : feqPop c = some (c', it))
    (hS : S (.took it)) : Enters S c c' := by
  obtain ⟨q, -, rfl⟩ := feqPop_some h
  exact ⟨[.took it], rfl, by simpa using hS⟩

/-- A Bind goes back to the queue, or into it. -/
theorem requeue_entries {c c' : Conn} {src : BindSource} (h : requeue w c src = some c') :
    ∃ o, c'.log = c.log ++ [o] ∧ ∃ it, o = .pushed it ∨ o = .putBack it := by
  cases src with
  | event bind =>
      dsimp only [requeue] at h
      rcases feqPushBind_cases (w := w) c bind with ⟨it, -, heq⟩ | heq
      · rcases feqPush_cases c (.bind it) with ⟨q, -, hpush⟩ | hpush
        · rw [heq, hpush] at h
          cases h
          exact ⟨_, rfl, _, Or.inl rfl⟩
        · rw [heq, hpush] at h
          cases h
      · rw [heq] at h
        cases h
  | queue it =>
      obtain ⟨q, -, rfl⟩ := feqPutBack_some h
      exact ⟨_, rfl, _, Or.inr rfl⟩

/-! ### Turns -/

/-- Who a connection is for, and what it has cached. -/
def Conn.person (c : Conn) : Identity × Bool × StmtCache := (c.id, c.identityReady, c.cache)

@[simp] theorem person_note (c : Conn) (o : Obs) : (c.note o).person = c.person := rfl

@[simp] theorem person_clearGot (c : Conn) : c.clearGot.person = c.person := rfl

@[simp] theorem person_emptyResp (c : Conn) : c.emptyResp.person = c.person := rfl

@[simp] theorem person_queue (c : Conn) (q : RingBuffer FeqItem feQMax) :
    ({ c with feQ := q } : Conn).person = c.person := rfl

theorem Arrives.person {c c₁ : Cell} {it : FeqItem} (h : Arrives c it c₁) :
    c₁.conn.person = c.conn.person := by
  cases h with
  | direct => exact person_note _ _
  | popped _ hpop =>
      obtain ⟨q, -, rfl⟩ := feqPop_some hpop
      exact (person_note _ _).trans (person_queue _ _)

theorem BindArrives.person {c c₁ : Cell} {src : BindSource} (h : BindArrives w c src c₁) :
    c₁.conn.person = c.conn.person := by
  cases h with
  | direct => simp only [Cell.upd, Conn.received, Conn.binding, person_note, person_clearGot, person_emptyResp]
  | popped _ hpop =>
      obtain ⟨q, -, rfl⟩ := feqPop_some hpop
      simp only [Conn.binding, person_note, person_queue]
  | again => rfl

/-- What an entry tells of the connection before and after the turn that makes it. -/
def Obs.Tells (cfg : Config) (hasPool : Bool) (c c' : Conn) : Obs → Prop
  | .authenticated .. => c.state = .tlsHs
  | .fed ready id => c.Open ∧ ready = c.identityReady ∧ id = c.id ∧
      (c.identityReady = true ∨ cfg.requireMtls = false)
  | .checkout ready id => c.identityReady = true ∧ ready = true ∧ id = c.id
  | .parked free => free = true → (∃ held, .binding held false ∈ c'.log) ∨ c'.Upset
  | .stub why _ => why.pool = hasPool ∧ why.ready = c.identityReady ∧ c.Open
  | .closed => False
  | _ => True

theorem tells_of_aside {cfg : Config} {hasPool : Bool} {c c' : Conn} {o : Obs} (ho : o.aside = true) :
    o.Tells cfg hasPool c c' := by
  cases o <;> first | exact trivial | exact nomatch ho

theorem Asides.tells {cfg : Config} {hasPool : Bool} {c c' a b : Conn} (h : Asides a b) :
    Enters (Obs.Tells cfg hasPool c c') a b :=
  h.mono fun _ => tells_of_aside

theorem Arrives.tells {cfg : Config} {hasPool : Bool} {c c₁ : Cell} {d d' : Conn} {it : FeqItem} (h : Arrives c it c₁) :
    Enters (Obs.Tells cfg hasPool d d') c.conn c₁.conn := by
  cases h with
  | direct => exact .note _ trivial
  | popped _ hpop => exact enters_feqPop hpop trivial

theorem enters_clearing {S : Obs → Prop} (c : Conn) : Enters S c c.emptyResp.clearGot := .of_log rfl

theorem BindArrives.tells {cfg : Config} {hasPool : Bool} {c c₁ : Cell} {d d' : Conn} {src : BindSource}
    (h : BindArrives w c src c₁) : Enters (Obs.Tells cfg hasPool d d') c.conn c₁.conn := by
  cases h with
  | @direct bind =>
      have hbinding : Enters (Obs.Tells cfg hasPool d d') c.conn
          ((c.conn.received (.bind bind)).binding w bind) :=
        (Enters.note c.conn (o := .received (.bind bind) c.conn.beWait) trivial).trans (.note _ trivial)
      exact hbinding.trans (enters_clearing _)
  | popped _ hpop =>
      have htook : Enters (Obs.Tells cfg hasPool d d') c.conn _ := enters_feqPop hpop trivial
      exact htook.trans (.note _ trivial)
  | again => exact .of_log rfl

theorem binding_hopeless {c : Conn} {bind : PqBind} (h : startable w c.cache bind c.id = false) :
    .binding c.beResp.len false ∈ (c.binding w bind).log := by
  rw [← h]
  exact List.mem_append_right _ List.mem_cons_self

/-- A Bind that could not be started whatever backends there are is marked so. -/
theorem BindArrives.hopeless {c c₁ : Cell} {src : BindSource} (h : BindArrives w c src c₁)
    (hstart : startable w c₁.conn.cache (src.bind w) c₁.conn.id = false) :
    (∃ held, .binding held false ∈ c₁.conn.log) ∨ .noSqe ∈ c₁.conn.log := by
  cases h with
  | @direct bind =>
      dsimp only [Cell.upd, Conn.emptyResp, Conn.clearGot, Conn.binding, Conn.note] at hstart
      exact Or.inl ⟨_, binding_hopeless hstart⟩
  | popped =>
      dsimp only [Conn.binding, Conn.note] at hstart
      exact Or.inl ⟨_, binding_hopeless hstart⟩
  | again _ hsqe => exact Or.inr hsqe

theorem enters_checkingOut {S : Obs → Prop} {c : Conn} (hready : c.identityReady = true)
    (hcheckout : c.identityReady = true → S (.checkout true c.id)) : Enters S c c.checkingOut := by
  refine .note c ?_
  rw [hready]
  exact hcheckout hready

theorem Tried.enters {S : Obs → Prop} {c c' : Cell} (h : Tried c c')
    (hcheckout : c.conn.identityReady = true → S (.checkout true c.conn.id))
    (haside : ∀ o : Obs, o.aside = true → S o) : Enters S c.conn c'.conn := by
  obtain ⟨l, rfl, hl⟩ := h
  refine ⟨l, rfl, fun o ho => ?_⟩
  rcases hl o ho with ⟨rfl, hready⟩ | ⟨it, rfl⟩
  · rw [hready]
    exact hcheckout hready
  · exact haside _ rfl

theorem Answers.enters {S : Obs → Prop} {cfg : Config} {hasPool : Bool} {c c' : Cell} {it : FeqItem}
    (h : Answers w cfg hasPool c it c')
    (hcheckout : c.conn.identityReady = true → S (.checkout true c.conn.id))
    (haside : ∀ o : Obs, o.aside = true → S o) : Enters S c.conn c'.conn := by
  cases h with
  | none => exact .of_log rfl
  | parse msg => exact (asides_answerParse cfg _ msg).mono haside
  | execute => exact (asides_answerExecute hasPool _).mono haside
  | sync => exact (asides_answerSync c).mono haside
  | queuedSync => exact (asides_answerQueuedSync c).mono haside
  | query sql reject => exact (outputs_replyThen _ _ _).asides.mono haside
  | forward sql hsound hready =>
      exact (enters_checkingOut hready hcheckout).trans ((asides_answerQuery _ _).mono haside)
  | queuedForward sql hsound hready =>
      exact (enters_checkingOut hready hcheckout).trans ((asides_answerQueuedQuery _ _).mono haside)
  | terminate => exact .of_log rfl

/-- A checkout tells whom it is for. -/
theorem tells_checkout {cfg : Config} {hasPool : Bool} {c c' a : Conn} (hperson : a.person = c.person)
    (hready : a.identityReady = true) : (Obs.checkout true a.id).Tells cfg hasPool c c' := by
  simp only [Conn.person, Prod.mk.injEq] at hperson
  exact ⟨hperson.2.1.symm.trans hready, rfl, hperson.1⟩

theorem Tried.tells {cfg : Config} {hasPool : Bool} {c c' : Cell} {d d' : Conn} (h : Tried c c')
    (hperson : c.conn.person = d.person) : Enters (Obs.Tells cfg hasPool d d') c.conn c'.conn :=
  h.enters (tells_checkout hperson) fun _ => tells_of_aside

theorem Answers.tells {cfg : Config} {hasPool : Bool} {c c' : Cell} {d d' : Conn} {it : FeqItem}
    (h : Answers w cfg hasPool c it c') (hperson : c.conn.person = d.person) :
    Enters (Obs.Tells cfg hasPool d d') c.conn c'.conn :=
  h.enters (tells_checkout hperson) fun _ => tells_of_aside

theorem enters_startOn {cfg : Config} {hasPool : Bool} {c : Cell} {d d' : Conn} (b : Nat) (h : BackendConn)
    (hready : c.conn.identityReady = true) (hperson : c.conn.person = d.person) :
    Enters (Obs.Tells cfg hasPool d d') c.conn (c.startOn b h).1.conn :=
  ((enters_checkingOut hready (tells_checkout hperson)).trans (.note _ (o := .began) trivial)).trans
    (outputs_startOn c b h).asides.tells

theorem Act.tells {cfg : Config} {hasPool : Bool} {c c' : Cell} {h h' : BackendConn}
    (ha : Act w cfg hasPool c h c' h') (ht : c.conn.Tidy) :
    Enters (Obs.Tells cfg hasPool c.conn c'.conn) c.conn c'.conn := by
  have hlost : ∀ {S : Obs → Prop} {a b : Cell} {ok : Bool}, (∀ o, o.aside = true → S o) → S .lost →
      reportLost w a = (b, ok) → Enters S a.conn b.conn := by
    intro S a b ok haside hS heq
    have hreport := (outputs_reportLost (w := w) a).asides
    rw [heq] at hreport
    exact (Enters.note _ hS).trans (hreport.mono haside)
  cases ha with
  | io hio => exact (outputs_io hio).asides.tells
  | feed hopen hready => exact .note _ ⟨hopen, rfl, rfl, hready⟩
  | startup =>
      exact (Enters.note c.conn (o := .received .startup c.conn.beWait) trivial).trans
        (outputs_replyThen _ _ _).asides.tells
  | ignore => exact .note _ trivial
  | terminate =>
      exact (Enters.note c.conn (o := .received .terminate c.conn.beWait) trivial).trans (.of_log rfl)
  | @enqueue h e hwait he =>
      refine (Enters.note c.conn (o := .received e c.conn.beWait) trivial).trans ?_
      rcases queueEvent_entries (w := w) (c.conn.received e) e with ⟨it, -, hlog⟩ | ⟨l, hlog, hall, -⟩
      · exact ⟨[.pushed it], hlog, by simp [Obs.Tells]⟩
      · exact ⟨l, hlog, fun o ho => tells_of_aside (hall o ho)⟩
  | answer harrive hanswer => exact harrive.tells.trans (hanswer.tells harrive.person)
  | @begin c₁ c' h h' src b harrive hready hbegun hstart =>
      have henters : Enters (Obs.Tells cfg hasPool c.conn c'.conn) c₁.conn (c₁.startOn b h').1.conn :=
        enters_startOn b h' hready harrive.person
      rw [hstart] at henters
      exact harrive.tells.trans henters
  | @park c₁ c₂ h src conn free harrive htried hqueue hfree =>
      obtain ⟨o, hlog, it, ho⟩ := requeue_entries hqueue
      have hgrow : ∀ {o : Obs}, o ∈ c₂.conn.log → o ∈ (conn.note (.parked free)).log := fun hmem =>
        List.mem_append_left _ (hlog ▸ List.mem_append_left _ hmem)
      refine ((harrive.tells.trans (htried.tells harrive.person)).trans
        ⟨[o], hlog, ?_⟩).trans (Enters.trans (.note conn (o := .parked free) ?_) (.of_log rfl))
      · rcases ho with rfl | rfl <;> simp [Obs.Tells]
      · intro htrue
        rcases hfree htrue with hstart | hsqe
        · refine (harrive.hopeless hstart).imp (fun ⟨held, hmem⟩ => ⟨held, hgrow ?_⟩)
            fun hmem => Or.inl (hgrow ?_)
          · exact (htried.ext (w := w)).toGrows.log_mem hmem
          · exact (htried.ext (w := w)).toGrows.log_mem hmem
        · exact Or.inr (Or.inl (hgrow hsqe))
  | bind harrive htried _ hpool hready =>
      refine (harrive.tells.trans (htried.tells harrive.person)).trans ?_
      exact enters_answerBind _ _ _ (fun _ => ⟨hpool, hready, harrive.open ht⟩) fun _ => tells_of_aside
  | @lost c₁ c₂ c₃ h h' src b harrive hready hstart hsend =>
      have henters : Enters (Obs.Tells cfg hasPool c.conn c₃.conn.release) c₁.conn
          (c₁.startOn b h').1.conn :=
        enters_startOn b h' hready harrive.person
      rw [hstart] at henters
      exact ((harrive.tells.trans henters).trans
        (hlost (fun _ => tells_of_aside) trivial hsend)).trans (.of_log rfl)
  | @lostCut c₁ c₂ _ h h' src b harrive hready hstart hsend =>
      have henters : Enters (Obs.Tells cfg hasPool c.conn c'.conn) c₁.conn (c₁.startOn b h').1.conn :=
        enters_startOn b h' hready harrive.person
      rw [hstart] at henters
      exact (harrive.tells.trans henters).trans (hlost (fun _ => tells_of_aside) trivial hsend)
  | draining v => exact .of_log rfl
  | unpark => exact .of_log rfl
  | @repark h free hwait hqueue hupset =>
      refine Enters.trans (.note c.conn (o := .parked free) fun _ => Or.inr ?_) (.of_log rfl)
      exact hupset.imp (fun h => List.mem_append_left _ h) fun h => List.mem_append_left _ h
  | handshake peer hstate =>
      have hlog : (tlsOnHandshakeDone cfg peer c.conn).1.log =
          c.conn.log ++ [.authenticated peer.id peer.ok] := by
        unfold tlsOnHandshakeDone
        split <;> rfl
      exact ⟨_, hlog, by simpa [Obs.Tells] using hstate⟩
  | closing => exact .of_log rfl

/-- The completion of a backend request can be the end of a pipeline. -/
def Obs.landing : Obs → Prop
  | .beData _ | .lost | .completed _ | .discarded _ => True
  | o => o.output = true

theorem Outputs.landing {c c' : Conn} (h : Outputs c c') : Enters Obs.landing c c' :=
  h.mono fun o ho => by cases o <;> first | exact trivial | exact ho

theorem log_release (c : Conn) : c.release.log = c.log := by
  dsimp only [Conn.release, Conn.clearGot]

theorem Land.landing {op : Op} {c c' : Cell} {h h' : BackendConn} (hl : Land w op c h c' h') :
    Enters Obs.landing c.conn c'.conn := by
  have hland : ∀ op, Enters Obs.landing c.conn (c.conn.landed op) :=
    fun op => by cases op <;> exact .of_log rfl
  have hrelease : ∀ a : Conn, Enters Obs.landing a (Conn.release { a with be := none }) :=
    fun a => .of_log (log_release { a with be := none })
  have hdata : ∀ (resp : RespBuf) (data : Bytes), Enters Obs.landing c.conn
      (c.upd fun conn => (conn.landed .beRecv).gotData resp data).conn := fun resp data =>
    (hland .beRecv).trans ⟨[.beData data], rfl, by simp [Obs.landing]⟩
  have hresp : ∀ resp : RespBuf, Enters Obs.landing c.conn
      (c.upd fun conn => { conn.landed op with beResp := resp }).conn := fun resp =>
    (hland op).trans (.of_log rfl)
  have hdeliver : ∀ {a b : Cell} {e ok : Bool}, deliverResult w a e = (b, ok) →
      Enters Obs.landing a.conn b.conn := by
    intro a b e ok heq
    have hresult := (outputs_deliverResult (w := w) a e).landing
    rw [heq] at hresult
    refine Enters.trans ?_ hresult
    cases e with
    | false => exact .note _ trivial
    | true => exact ⟨[.completed true, .discarded a.conn.feQ.toList],
        by simp [feqClearAll, Conn.note], by simp [Obs.landing]⟩
  have hlost : ∀ {a b : Cell} {ok : Bool}, reportLost w a = (b, ok) →
      Enters Obs.landing a.conn b.conn := by
    intro a b ok heq
    have hreport := (outputs_reportLost (w := w) a).landing
    rw [heq] at hreport
    exact (Enters.note _ trivial).trans hreport
  cases hl with
  | sent => exact (hland .beSend).trans (outputs_submitBeSend _ _).landing
  | resend => exact (hland .beSend).trans (outputs_submitBeSend _ _).landing
  | more => exact (hdata _ _).trans (outputs_submitBeRecv _ _).landing
  | @complete _ c₁ h h' data resp _ _ hsend =>
      exact ((hdata resp (usedUp h h' data)).trans (hdeliver hsend)).trans (hrelease c₁.conn)
  | @completeCut _ _ h h' data resp _ _ hsend =>
      exact (hdata resp (usedUp h h' data)).trans (hdeliver hsend)
  | @lost _ _ c₁ _ resp _ hsend =>
      exact ((hresp resp).trans (hlost hsend)).trans (.of_log (log_release c₁.conn))
  | lostCut resp _ hsend => exact (hresp resp).trans (hlost hsend)

/-- It tells nothing about who the connection is for. -/
theorem Land.tells {op : Op} {c c' : Cell} {h h' : BackendConn} (hl : Land w op c h c' h')
    (cfg : Config) (hasPool : Bool) (d d' : Conn) : Enters (Obs.Tells cfg hasPool d d') c.conn c'.conn :=
  hl.landing.mono fun o ho => by cases o <;> first | exact trivial | exact absurd ho nofun

end

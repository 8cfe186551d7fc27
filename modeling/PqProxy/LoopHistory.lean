import PqProxy.LoopTurn
import Mathlib

/-! What a turn adds to the history of its connection, whatever the turn is: the replies reach the
send buffer in the order of the history unless two channels are mixed, the queue is what the history
says, and every acknowledgement stands right behind its reason. -/

/-- The replies and the backend bytes in the order in which the server produced them. -/
def produced (w : Pqwire) (log : List Obs) : Bytes :=
  log.flatMap fun
    | .replied r => w.encode r
    | .handed _ data => data
    | _ => []

@[simp] theorem produced_nil (w : Pqwire) : produced w [] = [] := rfl

@[simp] theorem produced_append (w : Pqwire) (l m : List Obs) :
    produced w (l ++ m) = produced w l ++ produced w m := List.flatMap_append ..

/-- Backend bytes were only handed over when nothing was left in the context. -/
def Unmixed (log : List Obs) : Prop := ∀ p d, .handed p d ∈ log → p = [] ∨ d = []

theorem Unmixed.left {l m : List Obs} (h : Unmixed (l ++ m)) : Unmixed l :=
  fun p d hmem => h p d (List.mem_append_left m hmem)

theorem Unmixed.right {l m : List Obs} (h : Unmixed (l ++ m)) : Unmixed m :=
  fun p d hmem => h p d (List.mem_append_right l hmem)

/-- Entries that tell what happens to the queue. -/
def Obs.OnQueue : Obs → Prop
  | .pushed _ | .took _ | .putBack _ | .discarded _ => True
  | _ => False

/-- The queue follows the history: requests are taken from the head, and discarded all at once. -/
inductive Ledger : List FeqItem → List Obs → List FeqItem → Prop where
  | nil {q : List FeqItem} : Ledger q [] q
  | pushed {q q' : List FeqItem} {l : List Obs} {it : FeqItem} (h : Ledger (q ++ [it]) l q') :
      Ledger q (.pushed it :: l) q'
  | took {q q' : List FeqItem} {l : List Obs} {it : FeqItem} (h : Ledger q l q') :
      Ledger (it :: q) (.took it :: l) q'
  | putBack {q q' : List FeqItem} {l : List Obs} {it : FeqItem} (h : Ledger (it :: q) l q') :
      Ledger q (.putBack it :: l) q'
  | discarded {q q' : List FeqItem} {l : List Obs} (h : Ledger [] l q') :
      Ledger q (.discarded q :: l) q'
  | other {q q' : List FeqItem} {l : List Obs} {o : Obs} (h : Ledger q l q') (ho : ¬ o.OnQueue) :
      Ledger q (o :: l) q'

theorem Ledger.append {q q' q'' : List FeqItem} {l m : List Obs} (h : Ledger q l q')
    (k : Ledger q' m q'') : Ledger q (l ++ m) q'' := by
  induction h with
  | nil => exact k
  | pushed _ ih => exact (ih k).pushed
  | took _ ih => exact (ih k).took
  | putBack _ ih => exact (ih k).putBack
  | discarded _ ih => exact (ih k).discarded
  | other _ ho ih => exact (ih k).other ho

theorem ledger_same {q : List FeqItem} {l : List Obs} (h : ∀ o ∈ l, ¬ o.OnQueue) : Ledger q l q := by
  induction l with
  | nil => exact .nil
  | cons o l ih =>
      exact .other (ih fun a ha => h a (List.mem_cons_of_mem o ha)) (h o List.mem_cons_self)

/-- What a Bind is acknowledged for. -/
def Obs.Acknowledged : Obs → Prop
  | .completed sawError => sawError = false
  | .ran _ => True
  | .stub why _ => why.Holds
  | _ => False

/-- What stands between two entries in a row. -/
structure Follows (a b : Obs) : Prop where
  bindComplete : b = .replied .bindComplete → a.Acknowledged
  acknowledged : a.Acknowledged → b = .replied .bindComplete
  error : a = .completed true → ∃ its, b = .discarded its
  lost : a = .lost ↔ b = .replied pipelineError
  failed : a = .replied pipelineError → b = .replied .readyForQuery
  executed : a = .executing 0 ↔ ∃ t, b = .replied (.commandComplete t)

/-- Entries that depend on the one before, and entries that call for one behind. -/
def Obs.Opens (o : Obs) : Prop :=
  o = .replied .bindComplete ∨ o = .replied pipelineError ∨ ∃ t, o = .replied (.commandComplete t)

def Obs.Pends (o : Obs) : Prop :=
  o.Acknowledged ∨ o = .completed true ∨ o = .lost ∨ o = .replied pipelineError ∨ o = .executing 0

/-- Every acknowledgement and every report of a failure stands where it belongs. -/
structure Explained (l : List Obs) : Prop where
  chain : l.IsChain Follows
  opens : ∀ o ∈ l.head?, ¬ o.Opens
  pends : ∀ o ∈ l.getLast?, ¬ o.Pends

theorem follows_plain {a b : Obs} (ha : ¬ a.Pends) (hb : ¬ b.Opens) : Follows a b where
  bindComplete := fun h => absurd (Or.inl h) hb
  acknowledged := fun h => absurd (Or.inl h) ha
  error := fun h => absurd (Or.inr (Or.inl h)) ha
  lost := ⟨fun h => absurd (Or.inr (Or.inr (Or.inl h))) ha, fun h => absurd (Or.inr (Or.inl h)) hb⟩
  failed := fun h => absurd (Or.inr (Or.inr (Or.inr (Or.inl h)))) ha
  executed := ⟨fun h => absurd (Or.inr (Or.inr (Or.inr (Or.inr h)))) ha,
    fun h => absurd (Or.inr (Or.inr h)) hb⟩

theorem follows_lost : Follows .lost (.replied pipelineError) :=
  ⟨nofun, nofun, nofun, ⟨fun _ => rfl, fun _ => rfl⟩, nofun, ⟨nofun, by simp [pipelineError]⟩⟩

theorem follows_failed : Follows (.replied pipelineError) (.replied .readyForQuery) :=
  ⟨nofun, nofun, nofun, ⟨nofun, nofun⟩, fun _ => rfl, ⟨nofun, by simp⟩⟩

theorem follows_completed (its : List FeqItem) : Follows (.completed true) (.discarded its) :=
  ⟨nofun, nofun, fun _ => ⟨its, rfl⟩, ⟨nofun, nofun⟩, nofun, ⟨nofun, by simp⟩⟩

theorem follows_executed (t : Text) : Follows (.executing 0) (.replied (.commandComplete t)) :=
  ⟨nofun, nofun, nofun, ⟨nofun, by simp [pipelineError]⟩, nofun, ⟨fun _ => ⟨t, rfl⟩, fun _ => rfl⟩⟩

theorem Explained.append {l m : List Obs} (h : Explained l) (k : Explained m) :
    Explained (l ++ m) where
  chain := List.isChain_append.mpr ⟨h.chain, k.chain, fun a ha b hb =>
    follows_plain (h.pends a ha) (k.opens b hb)⟩
  opens := by
    intro o ho
    rw [List.head?_append] at ho
    cases hl : l.head? with
    | none =>
        rw [hl] at ho
        exact k.opens o ho
    | some a =>
        rw [hl] at ho
        exact h.opens o (hl ▸ ho)
  pends := by
    intro o ho
    rw [List.getLast?_append] at ho
    cases hm : m.getLast? with
    | none =>
        rw [hm] at ho
        exact h.pends o ho
    | some a =>
        rw [hm] at ho
        exact k.pends o (hm ▸ ho)

/-- The entry behind one that calls for another. -/
theorem Explained.next {before rest : List Obs} {o : Obs} (h : Explained (before ++ o :: rest))
    (ho : o.Pends) : ∃ o' behind, rest = o' :: behind ∧ Follows o o' := by
  cases rest with
  | nil => exact absurd ho (h.pends o (by simp))
  | cons o' behind =>
      have hchain := (List.isChain_append.mp h.chain).2.1
      exact ⟨o', behind, rfl, (List.isChain_cons_cons.mp hchain).1⟩

/-- The entry ahead of one that depends on it. -/
theorem Explained.last {before rest : List Obs} {o : Obs} (h : Explained (before ++ o :: rest))
    (ho : o.Opens) : ∃ ahead o', before = ahead ++ [o'] ∧ Follows o' o := by
  rcases List.eq_nil_or_concat before with rfl | ⟨ahead, o', rfl⟩
  · exact absurd ho (h.opens o rfl)
  · rw [List.concat_eq_append] at h ⊢
    exact ⟨ahead, o', rfl, (List.isChain_append.mp h.chain).2.2 o' (by simp) o rfl⟩

/-- The loss of a pipeline is followed by an ErrorResponse and a ReadyForQuery. -/
theorem Explained.lost {before rest : List Obs} (h : Explained (before ++ .lost :: rest)) :
    ∃ behind, rest = .replied pipelineError :: .replied .readyForQuery :: behind := by
  obtain ⟨o, behind, rfl, hfollows⟩ := h.next (Or.inr (Or.inr (Or.inl rfl)))
  rw [hfollows.lost.mp rfl, List.append_cons] at h
  obtain ⟨o', behind', rfl, hfollows'⟩ := h.next (Or.inr (Or.inr (Or.inr (Or.inl rfl))))
  exact ⟨behind', by rw [hfollows.lost.mp rfl, hfollows'.failed rfl]⟩

theorem explained_nil : Explained [] := ⟨List.isChain_nil, by simp, by simp⟩

theorem explained_singleton {o : Obs} (h : ¬ o.Opens) (h' : ¬ o.Pends) : Explained [o] :=
  ⟨List.isChain_singleton o, by simpa using h, by simpa using h'⟩

theorem explained_of_forall {l : List Obs} (h : ∀ o ∈ l, ¬ o.Opens ∧ ¬ o.Pends) : Explained l := by
  induction l with
  | nil => exact explained_nil
  | cons o l ih =>
      have ho := h o List.mem_cons_self
      exact (explained_singleton ho.1 ho.2).append (ih fun a ha => h a (List.mem_cons_of_mem o ha))

/-- What `l` adds to the history while connection `c` becomes `c'`. -/
structure Fits (w : Pqwire) (c : Conn) (l : List Obs) (c' : Conn) : Prop where
  closed : .closed ∉ l
  order : Unmixed l → (wireBytes l ++ c'.frontend).Sublist (c.frontend ++ produced w l)
  whole : Unmixed l → (∀ data, .refused data ∉ l) →
    wireBytes l ++ c'.frontend = c.frontend ++ produced w l
  queue : Ledger c.feQ.toList l c'.feQ.toList
  explained : w.Appends → Explained l
  tag : ∀ t, .replied (.commandComplete t) ∈ l → t = "SELECT 0".toList

/-- A connection goes on: it stays the same incarnation, it does not go back to the handshake, and its
identity is fixed from there on. -/
structure Keeps (c c' : Conn) : Prop where
  gen : c'.gen = c.gen
  fd : c'.fd = c.fd
  ssl : c'.ssl = c.ssl
  free : c'.state = .free ↔ c.state = .free
  hs : c'.state = .tlsHs → c.state = .tlsHs
  identity : c.state ≠ .tlsHs → c'.id = c.id ∧ c'.identityReady = c.identityReady

theorem Keeps.of_eq {c c' : Conn} (hgen : c'.gen = c.gen) (hfd : c'.fd = c.fd) (hssl : c'.ssl = c.ssl)
    (hstate : c'.state = c.state) (hid : c'.id = c.id) (hready : c'.identityReady = c.identityReady) :
    Keeps c c' := ⟨hgen, hfd, hssl, by rw [hstate], by rw [hstate]; exact id, fun _ => ⟨hid, hready⟩⟩

/-- What a connection keeps between its handshake and its end. -/
def Conn.lasting (c : Conn) : Nat × Option Nat × Bool × ConnState × Identity × Bool :=
  (c.gen, c.fd, c.ssl, c.state, c.id, c.identityReady)

theorem Keeps.of_lasting {c c' : Conn} (h : c'.lasting = c.lasting) : Keeps c c' := by
  simp only [Conn.lasting, Prod.mk.injEq] at h
  obtain ⟨hgen, hfd, hssl, hstate, hid, hready⟩ := h
  exact .of_eq hgen hfd hssl hstate hid hready

theorem Keeps.trans {a b c : Conn} (h : Keeps a b) (k : Keeps b c) : Keeps a c where
  gen := k.gen.trans h.gen
  fd := k.fd.trans h.fd
  ssl := k.ssl.trans h.ssl
  free := k.free.trans h.free
  hs := h.hs ∘ k.hs
  identity := by
    intro hstate
    obtain ⟨hid, hready⟩ := h.identity hstate
    obtain ⟨hid', hready'⟩ := k.identity fun hb => hstate (h.hs hb)
    exact ⟨hid'.trans hid, hready'.trans hready⟩

theorem Keeps.open {c c' : Conn} (h : Keeps c c') (hopen : c.Open) : c'.Open :=
  ⟨fun hfree => hopen.1 (h.free.mp hfree), fun hhs => hopen.2 (h.hs hhs)⟩

/-- The fields that belong to requests in flight. -/
def Conn.requests (c : Conn) : Nat × Nat × Bool × Bool × Bool × Bool × Bool :=
  (c.sendOff, c.sendLen, c.sendPending, c.pollPending, c.polledOut, c.beSendPending, c.beRecvPending)

/-- The history grows, and no request is made. -/
structure Adds (w : Pqwire) (c c' : Conn) : Prop where
  keeps : Keeps c c'
  requests : c'.requests = c.requests
  log : ∃ l, c'.log = c.log ++ l ∧ Fits w c l c'

theorem Fits.append {w : Pqwire} {a b c : Conn} {l m : List Obs} (h : Fits w a l b)
    (k : Fits w b m c) : Fits w a (l ++ m) c where
  closed := by
    rw [List.mem_append]
    exact fun hmem => hmem.elim h.closed k.closed
  order := by
    intro hun
    rw [wireBytes_append, produced_append, List.append_assoc, ← List.append_assoc a.frontend]
    exact (List.Sublist.append_left (k.order hun.right) _).trans (by
      rw [← List.append_assoc]
      exact List.Sublist.append_right (h.order hun.left) _)
  whole := by
    intro hun hnone
    rw [wireBytes_append, produced_append, List.append_assoc,
      k.whole hun.right fun d hd => hnone d (List.mem_append_right l hd), ← List.append_assoc,
      h.whole hun.left fun d hd => hnone d (List.mem_append_left m hd), List.append_assoc]
  queue := h.queue.append k.queue
  explained := fun hw => (h.explained hw).append (k.explained hw)
  tag := fun t ht => (List.mem_append.mp ht).elim (h.tag t) (k.tag t)

theorem Adds.trans {w : Pqwire} {a b c : Conn} (h : Adds w a b) (k : Adds w b c) : Adds w a c where
  keeps := h.keeps.trans k.keeps
  requests := k.requests.trans h.requests
  log := by
    obtain ⟨l, hl, hfits⟩ := h.log
    obtain ⟨m, hm, kfits⟩ := k.log
    exact ⟨l ++ m, by rw [hm, hl, List.append_assoc], hfits.append kfits⟩

/-- What goes to the context, while the queue stays. -/
theorem fits_context {w : Pqwire} {c c' : Conn} {l : List Obs} (hwire : wireBytes l = [])
    (hfrontend : c'.frontend = c.frontend ++ produced w l)
    (hqueue : c'.feQ.toList = c.feQ.toList) (hon : ∀ o ∈ l, ¬ o.OnQueue) (hclosed : .closed ∉ l)
    (hexplained : w.Appends → Explained l)
    (htag : ∀ t, .replied (.commandComplete t) ∈ l → t = "SELECT 0".toList) : Fits w c l c' := by
  have heq : wireBytes l ++ c'.frontend = c.frontend ++ produced w l := by
    rw [hwire, hfrontend, List.nil_append]
  exact ⟨hclosed, fun _ => by rw [heq], fun _ _ => heq, hqueue ▸ ledger_same hon, hexplained, htag⟩

/-- Entries that only record what came in, or how the backend side goes on. -/
def Obs.Plain : Obs → Prop
  | .received .. | .dropped _ | .noSqe | .unarmed | .crossed | .authenticated .. | .fed .. | .checkout ..
  | .binding .. | .began | .parked _ | .beData _ | .forwarded _ | .cacheFull => True
  | _ => False

theorem fits_plain {w : Pqwire} {c c' : Conn} {l : List Obs} (hl : ∀ o ∈ l, o.Plain)
    (hfrontend : c'.frontend = c.frontend) (hqueue : c'.feQ.toList = c.feQ.toList) :
    Fits w c l c' := by
  have hwire : wireBytes l = [] := List.flatMap_eq_nil_iff.mpr fun o ho => by
    have := hl o ho
    cases o <;> first | rfl | cases this
  have hproduced : produced w l = [] := List.flatMap_eq_nil_iff.mpr fun o ho => by
    have := hl o ho
    cases o <;> first | rfl | cases this
  refine fits_context hwire (by rw [hproduced, hfrontend, List.append_nil]) hqueue ?_
    (fun h => hl _ h) (fun _ => explained_of_forall ?_) (fun t h => (hl _ h).elim)
  · intro o ho
    have := hl o ho
    cases o <;> first | exact id | cases this
  · intro o ho
    have hplain := hl o ho
    refine ⟨?_, ?_⟩
    · rintro (rfl | rfl | ⟨t, rfl⟩) <;> exact hplain
    · rintro (h | rfl | rfl | rfl | rfl)
      · cases o <;> first | exact h | exact hplain
      all_goals exact hplain

namespace Adds

variable {w : Pqwire}

/-- Fields change that the history does not tell of. -/
theorem of_fields {c c' : Conn} (hlog : c'.log = c.log) (hfrontend : c'.frontend = c.frontend)
    (hqueue : c'.feQ.toList = c.feQ.toList) (hkeeps : Keeps c c')
    (hrequests : c'.requests = c.requests) : Adds w c c' :=
  ⟨hkeeps, hrequests, [], by rw [hlog, List.append_nil], fits_plain (by simp) hfrontend hqueue⟩

theorem refl (c : Conn) : Adds w c c := of_fields rfl rfl rfl (.of_lasting rfl) rfl

theorem note (c : Conn) {o : Obs} (ho : o.Plain) : Adds w c (c.note o) :=
  ⟨.of_lasting rfl, rfl, [o], rfl, fits_plain (by simpa using ho) rfl rfl⟩

end Adds

section

variable (w : Pqwire)

/-- The context takes a reply, or stays as it is. -/
theorem reply_cases (c : Conn) (r : Reply) :
    (w.accepts c.frontend r = true ∧ reply w c r =
        ({ c with frontend := c.frontend ++ w.encode r }.note (.replied r), true)) ∨
      (w.accepts c.frontend r = false ∧ reply w c r = (c, false)) := by
  unfold reply Pqwire.send
  cases h : w.accepts c.frontend r with
  | true => exact Or.inl ⟨rfl, by simp⟩
  | false => exact Or.inr ⟨rfl, by simp⟩

theorem reply_eq {w : Pqwire} (hw : w.Appends) (c : Conn) (r : Reply) :
    reply w c r =
      ({ c with frontend := c.frontend ++ w.encode r }.note (.replied r), true) := by
  rcases reply_cases w c r with ⟨-, h⟩ | ⟨h, -⟩
  · exact h
  · rw [hw.accepts] at h
    cases h

variable {w}

/-- A reply that needs no reason. -/
structure Reply.Free (r : Reply) : Prop where
  bindComplete : r ≠ .bindComplete
  pipelineError : r ≠ pipelineError
  commandComplete : ∀ t, r ≠ .commandComplete t

theorem Reply.Free.explained {r : Reply} (h : r.Free) : Explained [.replied r] := by
  refine explained_singleton ?_ ?_
  · rintro (heq | heq | ⟨t, heq⟩)
    · exact h.bindComplete (by cases heq; rfl)
    · exact h.pipelineError (by cases heq; rfl)
    · exact h.commandComplete t (by cases heq; rfl)
  · rintro (heq | heq | heq | heq | heq)
    · exact heq
    · cases heq
    · cases heq
    · exact h.pipelineError (by cases heq; rfl)
    · cases heq

/-- One reply. What it has to stand with matters only for a library that keeps its promises. -/
theorem adds_reply_if (c : Conn) {r : Reply} (hr : w.Appends → Explained [.replied r])
    (htag : ∀ t, r = .commandComplete t → t = "SELECT 0".toList) : Adds w c (reply w c r).1 := by
  rcases reply_cases w c r with ⟨-, h⟩ | ⟨-, h⟩
  · rw [h]
    refine ⟨.of_lasting rfl, rfl, [.replied r], rfl, fits_context rfl (by simp [Conn.note, produced]) rfl
      (by simp [Obs.OnQueue]) (by simp) hr ?_⟩
    intro t ht
    exact htag t (by cases List.mem_singleton.mp ht; rfl)
  · rw [h]
    exact .refl c

theorem adds_reply (c : Conn) {r : Reply} (hr : r.Free) : Adds w c (reply w c r).1 :=
  adds_reply_if c (fun _ => hr.explained) fun t ht => absurd ht (hr.commandComplete t)

/-- The reason for acknowledging a Bind is a mark: it carries no byte and no reply. -/
theorem Obs.Acknowledged.quiet {o : Obs} (ho : o.Acknowledged) (w : Pqwire) :
    wireBytes [o] = [] ∧ produced w [o] = [] ∧ ¬ o.OnQueue ∧ o ≠ .closed ∧
      (∀ r, o ≠ .replied r) ∧ o ≠ .completed true ∧ o ≠ .lost := by
  cases o with
  | completed sawError =>
      cases ho
      exact ⟨rfl, rfl, id, nofun, nofun, nofun, nofun⟩
  | ran | stub => exact ⟨rfl, rfl, id, nofun, nofun, nofun, nofun⟩
  | _ => exact ho.elim

theorem Obs.Acknowledged.follows {o : Obs} (ho : o.Acknowledged) :
    Follows o (.replied .bindComplete) := by
  refine ⟨fun _ => ho, fun _ => rfl, ?_, ⟨?_, nofun⟩, ?_, ⟨?_, by simp⟩⟩
  all_goals
    rintro rfl
    cases ho

/-- The acknowledgement of a Bind stands right behind its reason. -/
theorem adds_acknowledge (c : Conn) {o : Obs} (ho : o.Acknowledged) :
    Adds w c (reply w (c.note o) .bindComplete).1 := by
  obtain ⟨hwire, hproduced, hon, hclosed, hreply, herror, hlost⟩ := ho.quiet w
  rcases reply_cases w (c.note o) .bindComplete with ⟨-, h⟩ | ⟨hno, h⟩
  · rw [h]
    refine ⟨.of_lasting rfl, rfl, [o] ++ [.replied .bindComplete], by simp [Conn.note], fits_context ?_ ?_ rfl
      ?_ ?_ (fun _ => ⟨?_, ?_, ?_⟩) ?_⟩
    · rw [wireBytes_append, hwire]
      rfl
    · rw [produced_append, hproduced]
      simp [Conn.note, produced]
    · rintro a (_ | ⟨_, _ | ⟨_, ⟨⟩⟩⟩)
      · exact hon
      · exact id
    · simp [hclosed.symm]
    · refine List.isChain_cons_cons.mpr ⟨?_, List.isChain_singleton _⟩
      exact ho.follows
    · rintro a ⟨⟩ (h | h | ⟨t, h⟩)
      · exact hreply _ h
      · exact hreply _ h
      · exact hreply _ h
    · simp [Obs.Pends, Obs.Acknowledged, pipelineError]
    · intro t ht
      rcases List.mem_append.mp ht with h | h
      · exact absurd (List.mem_singleton.mp h).symm (hreply _)
      · cases List.mem_singleton.mp h
  · rw [h]
    refine ⟨.of_lasting rfl, rfl, [o], rfl, fits_context hwire (by simp [Conn.note, hproduced]) rfl ?_ ?_
      (fun hw => ?_) ?_⟩
    · simpa using hon
    · simpa using hclosed.symm
    · rw [hw.accepts] at hno
      cases hno
    · intro t ht
      exact absurd (List.mem_singleton.mp ht).symm (hreply _)

/-- So does the answer of the server itself to an Execute. -/
theorem adds_executed (c : Conn) :
    Adds w c (reply w (c.note (.executing 0)) (.commandComplete "SELECT 0".toList)).1 := by
  by_cases hw : w.Appends
  · rw [reply_eq hw]
    refine ⟨.of_lasting rfl, rfl, [.executing 0, .replied (.commandComplete "SELECT 0".toList)],
      by simp [Conn.note], fits_context rfl (by simp [Conn.note, produced]) rfl
      (by simp [Obs.OnQueue]) (by simp) (fun _ => ⟨?_, ?_, ?_⟩) (by simp)⟩
    · exact List.isChain_cons_cons.mpr ⟨follows_executed _, List.isChain_singleton _⟩
    · rintro a ⟨⟩ (h | h | ⟨t, h⟩) <;> cases h
    · rintro a ⟨⟩ (h | h | h | h | h) <;> cases h
  · have hexecuting : Adds w c (c.note (.executing 0)) :=
      ⟨.of_lasting rfl, rfl, [.executing 0], rfl, fits_context rfl (by simp [Conn.note, produced]) rfl
        (by simp [Obs.OnQueue]) (by simp) (fun h => absurd h hw) (by simp)⟩
    exact hexecuting.trans (adds_reply_if _ (fun h => absurd h hw) (by simp))

theorem free_readyForQuery : Reply.Free .readyForQuery := ⟨nofun, nofun, nofun⟩

/-- A pipeline that failed is reported by an error and a ReadyForQuery. -/
theorem adds_pipelineError (c : Conn) :
    Adds w c (replyBoth w (c.note .lost) pipelineError .readyForQuery) := by
  unfold replyBoth
  by_cases hw : w.Appends
  · rw [reply_eq hw, reply_eq hw]
    refine ⟨.of_lasting rfl, rfl, [.lost, .replied pipelineError, .replied .readyForQuery],
      by simp [Conn.note], fits_context rfl (by simp [Conn.note, produced]) rfl
      (by simp [Obs.OnQueue]) (by simp) (fun _ => ⟨?_, ?_, ?_⟩) (by simp [pipelineError])⟩
    · refine List.isChain_cons_cons.mpr ⟨?_, List.isChain_cons_cons.mpr ⟨?_,
        List.isChain_singleton _⟩⟩
      · exact follows_lost
      · exact follows_failed
    · rintro a ⟨⟩ (h | h | ⟨t, h⟩) <;> cases h
    · rintro a ⟨⟩ (h | h | h | h | h) <;> cases h
  · have hlost : Adds w c (c.note .lost) :=
      ⟨.of_lasting rfl, rfl, [.lost], rfl, fits_context rfl (by simp [Conn.note, produced]) rfl
        (by simp [Obs.OnQueue]) (by simp) (fun h => absurd h hw) (by simp)⟩
    exact (hlost.trans (adds_reply_if _ (fun h => absurd h hw) (by simp [pipelineError]))).trans
      (adds_reply_if _ (fun h => absurd h hw) fun t h => absurd h (free_readyForQuery.commandComplete t))

/-- An error that is not the one for a failed pipeline. -/
theorem free_error {severity code message : Text}
    (h : Reply.errorResponse severity code message ≠ pipelineError) :
    (Reply.errorResponse severity code message).Free := ⟨nofun, h, nofun⟩

theorem free_parseComplete : Reply.Free .parseComplete := ⟨nofun, nofun, nofun⟩

theorem free_authOk : Reply.Free .authOk := ⟨nofun, nofun, nofun⟩

theorem adds_replyThen (c : Conn) {r s : Reply} (hr : r.Free) (hs : s.Free) :
    Adds w c (replyThen w c r s).1 := by
  have hfirst := adds_reply (w := w) c hr
  unfold replyThen
  generalize reply w c r = res at hfirst
  obtain ⟨c₁, ok⟩ := res
  cases ok with
  | false => exact hfirst
  | true => exact hfirst.trans (adds_reply c₁ hs)

theorem adds_replyBoth (c : Conn) {r s : Reply} (hr : r.Free) (hs : s.Free) :
    Adds w c (replyBoth w c r s) := (adds_reply c hr).trans (adds_reply _ hs)

/-! ### The queue -/

theorem feqPush_cases (c : Conn) (it : FeqItem) :
    (∃ q : RingBuffer FeqItem feQMax, q.toList = c.feQ.toList ++ [it] ∧
        feqPush c it = ({ c with feQ := q }.note (.pushed it), true)) ∨
      feqPush c it = (c.note (.dropped it), false) := by
  unfold feqPush
  split
  · exact Or.inl ⟨_, RingBuffer.toList_push .., rfl⟩
  · exact Or.inr rfl

theorem feqPop_some {c c' : Conn} {it : FeqItem} (h : feqPop c = some (c', it)) :
    ∃ q : RingBuffer FeqItem feQMax, c.feQ.toList = it :: q.toList ∧
      c' = { c with feQ := q }.note (.took it) := by
  unfold feqPop at h
  split at h
  · rename_i hpos
    cases h
    exact ⟨_, by rw [RingBuffer.toList_pop]; exact c.feQ.toList_eq_cons hpos, rfl⟩
  · cases h

theorem feqPutBack_some {c c' : Conn} {it : FeqItem} (h : feqPutBack c it = some c') :
    ∃ q : RingBuffer FeqItem feQMax, q.toList = it :: c.feQ.toList ∧
      c' = { c with feQ := q }.note (.putBack it) := by
  unfold feqPutBack at h
  split at h
  · cases h
    exact ⟨_, RingBuffer.toList_putBack .., rfl⟩
  · cases h

/-- One entry about the queue. -/
theorem adds_queue {c : Conn} {o : Obs} {q : RingBuffer FeqItem feQMax} (ho : o.OnQueue)
    (h : Ledger c.feQ.toList [o] q.toList) : Adds w c ({ c with feQ := q }.note o) := by
  have hone : wireBytes [o] = [] ∧ produced w [o] = [] ∧ o ≠ .closed ∧ Explained [o] ∧
      (∀ r, o ≠ .replied r) := by
    cases o <;> cases ho <;> exact ⟨rfl, rfl, nofun, explained_singleton
      (by rintro (h | h | ⟨t, h⟩) <;> cases h) (by rintro (h | h | h | h | h) <;> cases h), nofun⟩
  obtain ⟨hwire, hproduced, hclosed, hexplained, hreply⟩ := hone
  refine ⟨.of_lasting rfl, rfl, [o], rfl, by simpa using hclosed.symm, fun _ => ?_, fun _ _ => ?_, h,
    fun _ => hexplained, fun t ht => absurd (List.mem_singleton.mp ht).symm (hreply _)⟩
  · rw [hwire, hproduced, List.append_nil]
    exact List.Sublist.refl _
  · rw [hwire, hproduced, List.append_nil]
    rfl

theorem adds_feqPush (c : Conn) (it : FeqItem) : Adds w c (feqPush c it).1 := by
  rcases feqPush_cases c it with ⟨q, hq, h⟩ | h
  · rw [h]
    exact adds_queue trivial (.pushed (hq ▸ .nil))
  · rw [h]
    exact .note c trivial

theorem adds_feqPop {c c' : Conn} {it : FeqItem} (h : feqPop c = some (c', it)) : Adds w c c' := by
  obtain ⟨q, hq, rfl⟩ := feqPop_some h
  exact adds_queue trivial (hq ▸ .took .nil)

theorem adds_feqPutBack {c c' : Conn} {it : FeqItem} (h : feqPutBack c it = some c') :
    Adds w c c' := by
  obtain ⟨q, hq, rfl⟩ := feqPutBack_some h
  exact adds_queue trivial (.putBack (hq ▸ .nil))

theorem feqPushBind_cases (c : Conn) (bind : PqBind) :
    (∃ it, bindItem w bind = some it ∧ feqPushBind w c bind = feqPush c (.bind it)) ∨
      feqPushBind w c bind = (c.note (.dropped .none), false) := by
  unfold feqPushBind
  cases h : bindItem w bind with
  | none => exact Or.inr rfl
  | some it => exact Or.inl ⟨it, rfl, rfl⟩

theorem adds_feqPushBind (c : Conn) (bind : PqBind) : Adds w c (feqPushBind w c bind).1 := by
  rcases feqPushBind_cases c bind with ⟨it, -, h⟩ | h
  · rw [h]
    exact adds_feqPush c _
  · rw [h]
    exact .note c trivial

theorem adds_answerStartup (c : Conn) : Adds w c (answerStartup w c).1 :=
  adds_replyThen c free_authOk free_readyForQuery

/-- A Parse is answered, or reported not to fit the cache. -/
theorem answerParse_cases (cfg : Config) (c : Conn) (parse : PqParse) : ∃ cache,
    answerParse w cfg c parse =
        { c with frontend := c.frontend ++ w.encode .parseComplete, cache := cache }.note
          (.replied .parseComplete) ∨
      answerParse w cfg c parse =
        replyBoth w ({ c with cache := cache }.note .cacheFull) cacheFullError .readyForQuery := by
  unfold answerParse onParseEx Pqwire.send
  dsimp only
  generalize stmtCachePut w c.cache parse _ = r
  obtain ⟨cache, ok⟩ := r
  refine ⟨cache, ?_⟩
  cases ok with
  | false => exact Or.inr rfl
  | true =>
      cases h : w.accepts c.frontend .parseComplete with
      | false => exact Or.inr (by simp)
      | true => exact Or.inl (by simp)

theorem adds_answerParse (cfg : Config) (c : Conn) (parse : PqParse) :
    Adds w c (answerParse w cfg c parse) := by
  obtain ⟨cache, h | h⟩ := answerParse_cases (w := w) cfg c parse
  · rw [h]
    exact ⟨.of_lasting rfl, rfl, [.replied .parseComplete], rfl, fits_context rfl
      (by simp [Conn.note, produced]) rfl (by simp [Obs.OnQueue]) (by simp)
      (fun _ => free_parseComplete.explained) (by simp)⟩
  · rw [h]
    have hcache : Adds w c { c with cache := cache } :=
      .of_fields rfl rfl rfl (.of_lasting rfl) rfl
    have hnote : Adds w { c with cache := cache } ({ c with cache := cache }.note .cacheFull) :=
      .note _ trivial
    exact (hcache.trans hnote).trans (adds_replyBoth _ (free_error (by simp [pipelineError])) free_readyForQuery)

/-- An Execute is answered by the server itself when no response is there for it. -/
theorem answerExecute_cases (w : Pqwire) (hasPool : Bool) (c : Conn) :
    ((hasPool = false ∨ c.beResp.len = 0) ∧ answerExecute w hasPool c =
        reply w (c.note (.executing 0)) (.commandComplete "SELECT 0".toList)) ∨
      hasPool = true ∧ c.beResp.len ≠ 0 ∧
        answerExecute w hasPool c = (c.note (.executing c.beResp.len), true) := by
  unfold answerExecute
  dsimp only [Conn.note]
  by_cases hstub : hasPool = false ∨ c.beResp.len = 0
  · rw [if_pos hstub]
    refine Or.inl ⟨hstub, ?_⟩
    rcases hstub with rfl | hlen
    · rfl
    · rw [hlen, ite_self]
  · rw [if_neg hstub]
    rw [not_or, Bool.not_eq_false] at hstub
    exact Or.inr ⟨hstub.1, hstub.2, by rw [if_pos hstub.1]⟩

theorem adds_answerExecute (hasPool : Bool) (c : Conn) :
    Adds w c (answerExecute w hasPool c).1 := by
  rcases answerExecute_cases w hasPool c with ⟨-, h⟩ | ⟨-, hlen, h⟩
  · rw [h]
    exact adds_executed c
  · rw [h]
    exact ⟨.of_lasting rfl, rfl, [_], rfl, fits_context rfl (by simp [Conn.note, produced]) rfl
      (by simp [Obs.OnQueue]) (by simp) (fun _ => explained_singleton (by simp [Obs.Opens])
        (by simpa [Obs.Pends, Obs.Acknowledged] using hlen)) (by simp)⟩

theorem adds_onSimpleQuery (c : Conn) (reject : Bool) :
    Adds w c (onSimpleQuery w c reject).1 :=
  adds_replyThen c (free_error (by simp [pipelineError])) free_readyForQuery

/-- The response buffer is not part of the history. -/
theorem adds_resp (c : Conn) (resp : RespBuf) : Adds w c { c with beResp := resp } :=
  .of_fields rfl rfl rfl (.of_lasting rfl) rfl

theorem adds_answerBind (c : Conn) {why : Unrun} (hwhy : why.Holds) (r : Option ExecResult) :
    Adds w c (answerBind w c why r).1 := by
  unfold answerBind
  cases r with
  | none => exact adds_acknowledge c hwhy
  | some r =>
      have hfill : Adds w c (c.fillResp r) := adds_resp c _
      dsimp only
      split
      · exact hfill.trans ((adds_resp _ _).trans (adds_acknowledge _ trivial))
      · exact hfill.trans (adds_acknowledge _ hwhy)

theorem adds_queueEvent (c : Conn) (e : Event) : Adds w c (queueEvent w c e) := by
  have hgot : ∀ (c : Conn) (x y : Bool), Adds w c { c with gotExecute := x, gotSync := y } :=
    fun c x y => .of_fields rfl rfl rfl (.of_lasting rfl) rfl
  have hfull : queueFullError.Free := free_error (by simp [pipelineError])
  cases e with
  | parse msg =>
      have hpush := adds_feqPush (w := w) c (.parse msg)
      simp only [queueEvent, feqPushParse]
      generalize feqPush c (.parse msg) = r at hpush
      obtain ⟨c₁, _ | _⟩ := r
      · exact hpush.trans (adds_reply c₁ hfull)
      · exact hpush
  | bind msg =>
      have hpush := adds_feqPushBind (w := w) c msg
      simp only [queueEvent]
      generalize feqPushBind w c msg = r at hpush
      obtain ⟨c₁, _ | _⟩ := r
      · exact hpush.trans (adds_replyBoth c₁ hfull free_readyForQuery)
      · exact hpush
  | execute =>
      have hpush := adds_feqPush (w := w) c .execute
      simp only [queueEvent]
      generalize feqPush c .execute = r at hpush
      obtain ⟨c₁, _ | _⟩ := r
      · exact hpush.trans (hgot c₁ true c₁.gotSync)
      · exact hpush
  | sync => exact (adds_feqPush (w := w) c .sync).trans (hgot _ _ true)
  | query sql =>
      have hpush := adds_feqPush (w := w) c (.query (sql.copyTo w.maxQueryLen))
      simp only [queueEvent]
      generalize feqPush c (.query (sql.copyTo w.maxQueryLen)) = r at hpush
      obtain ⟨c₁, _ | _⟩ := r
      · exact hpush.trans (adds_replyBoth c₁ hfull free_readyForQuery)
      · exact hpush
  | _ => exact .refl c

end

/-! ### Cells -/

/-- How many of the requests are of one kind. -/
def opCount (op : Op) (rs : List Request) : Nat := rs.countP fun r => decide (r.op = op)

@[simp] theorem opCount_nil (op : Op) : opCount op [] = 0 := rfl

@[simp] theorem opCount_append (op : Op) (rs rs' : List Request) :
    opCount op (rs ++ rs') = opCount op rs + opCount op rs' := List.countP_append ..

/-- A connection goes on, and the entries it prepares are its own; a backend request is pending from
its preparation on. -/
structure Grows (w : Pqwire) (c c' : Cell) : Prop where
  slot : c'.slot = c.slot
  keeps : Keeps c.conn c'.conn
  log : ∃ l, c'.conn.log = c.conn.log ++ l ∧ Fits w c.conn l c'.conn
  sq : ∃ new, c'.sq = c.sq ++ new ∧ (∀ r ∈ new, Own c r) ∧
    opCount .beSend new + c.conn.beSendPending.toNat = c'.conn.beSendPending.toNat ∧
    opCount .beRecv new + c.conn.beRecvPending.toNat = c'.conn.beRecvPending.toNat
  sends : Sends c c'

/-- The same without a backend request. -/
structure Widens (w : Pqwire) (c c' : Cell) : Prop extends Grows w c c' where
  pending : c'.conn.beSendPending = c.conn.beSendPending ∧
    c'.conn.beRecvPending = c.conn.beRecvPending

namespace Grows

variable {w : Pqwire}

theorem own {c c' : Cell} (h : Grows w c c') (r : Request) (hr : Own c' r) : Own c r :=
  hr.of_eq h.slot h.keeps.gen h.keeps.ssl

theorem log_mem {c c' : Cell} (h : Grows w c c') {o : Obs} (ho : o ∈ c.conn.log) :
    o ∈ c'.conn.log := by
  obtain ⟨l, hl, -⟩ := h.log
  rw [hl]
  exact List.mem_append_left l ho

theorem sq_mem {c c' : Cell} (h : Grows w c c') {r : Request} (hr : r ∈ c.sq) : r ∈ c'.sq := by
  obtain ⟨new, hnew, -⟩ := h.sq
  rw [hnew]
  exact List.mem_append_left new hr

theorem trans {a b c : Cell} (h : Grows w a b) (k : Grows w b c) : Grows w a c where
  slot := k.slot.trans h.slot
  keeps := h.keeps.trans k.keeps
  log := by
    obtain ⟨l, hl, hfits⟩ := h.log
    obtain ⟨m, hm, kfits⟩ := k.log
    exact ⟨l ++ m, by rw [hm, hl, List.append_assoc], hfits.append kfits⟩
  sq := by
    obtain ⟨new, hnew, hown, hsend, hrecv⟩ := h.sq
    obtain ⟨new', hnew', hown', hsend', hrecv'⟩ := k.sq
    refine ⟨new ++ new', by rw [hnew', hnew, List.append_assoc], ?_, ?_, ?_⟩
    · intro r hr
      rcases List.mem_append.mp hr with h' | h'
      · exact hown r h'
      · exact h.own r (hown' r h')
    · rw [opCount_append]
      omega
    · rw [opCount_append]
      omega
  sends := h.sends.trans k.sends h.own (fun _ => k.log_mem) fun _ => k.sq_mem

end Grows

namespace Widens

variable {w : Pqwire}

theorem of_adds {c : Cell} {conn : Conn} (h : Adds w c.conn conn) :
    Widens w c { c with conn := conn } := by
  have hrequests := h.requests
  simp only [Conn.requests, Prod.mk.injEq] at hrequests
  obtain ⟨hoff, hlen, hsend, hpoll, hout, hbeSend, hbeRecv⟩ := hrequests
  refine ⟨⟨rfl, h.keeps, h.log, ⟨[], by simp, by simp, by simp [hbeSend], by simp [hbeRecv]⟩, ?_⟩,
    hbeSend, hbeRecv⟩
  refine .of_same hsend hpoll hout fun hflows => ?_
  unfold Conn.Flows at hflows ⊢
  rwa [hoff, hlen, h.keeps.ssl, hpoll, hout, hsend]

theorem refl (c : Cell) : Widens w c c := of_adds (.refl c.conn)

theorem trans {a b c : Cell} (h : Widens w a b) (k : Widens w b c) : Widens w a c :=
  ⟨h.toGrows.trans k.toGrows, k.pending.1.trans h.pending.1, k.pending.2.trans h.pending.2⟩

end Widens

/-- The bytes that the output side moves. -/
theorem produced_io {w : Pqwire} {l : List Obs} (h : ∀ o ∈ l, o.IsIo) : produced w l = [] :=
  List.flatMap_eq_nil_iff.mpr fun o ho => by
    have := h o ho
    cases o <;> first | rfl | cases this

theorem Obs.IsIo.calm {o : Obs} (h : o.IsIo) : ¬ o.Opens ∧ ¬ o.Pends := by
  refine ⟨?_, ?_⟩
  · rintro (rfl | rfl | ⟨t, rfl⟩) <;> exact h
  · rintro (h' | rfl | rfl | rfl | rfl)
    · cases o <;> first | exact h' | exact h
    all_goals exact h

theorem explained_io {l : List Obs} (h : ∀ o ∈ l, o.IsIo) : Explained l :=
  explained_of_forall fun o ho => (h o ho).calm

theorem ledger_io {q : List FeqItem} {l : List Obs} (h : ∀ o ∈ l, o.IsIo) : Ledger q l q :=
  ledger_same fun o ho => by
    have := h o ho
    cases o <;> first | exact id | cases this

/-- The entries prepared by the output side are not for a backend. -/
theorem Moved.sq_ext {extra : Bytes} {c c' : Cell} (h : Moved extra c c') :
    (∃ new, c'.sq = c.sq ++ new ∧ (∀ r ∈ new, Own c r) ∧
      opCount .beSend new + c.conn.beSendPending.toNat = c'.conn.beSendPending.toNat ∧
      opCount .beRecv new + c.conn.beRecvPending.toNat = c'.conn.beRecvPending.toNat) ∧
      c'.conn.beSendPending = c.conn.beSendPending ∧
      c'.conn.beRecvPending = c.conn.beRecvPending := by
  obtain ⟨new, hnew, hall⟩ := h.sq
  have hcount : opCount .beSend new = 0 ∧ opCount .beRecv new = 0 :=
    ⟨List.countP_eq_zero.mpr fun r hr => by simpa using (hall r hr).2.1,
      List.countP_eq_zero.mpr fun r hr => by simpa using (hall r hr).2.2⟩
  have hpending : c'.conn.beSendPending = c.conn.beSendPending ∧
      c'.conn.beRecvPending = c.conn.beRecvPending := by
    rw [h.conn]
    exact ⟨rfl, rfl⟩
  exact ⟨⟨new, hnew, fun r hr => (hall r hr).1, by rw [hcount.1, hpending.1, Nat.zero_add],
    by rw [hcount.2, hpending.2, Nat.zero_add]⟩, hpending⟩

theorem Moved.keeps {extra : Bytes} {c c' : Cell} (h : Moved extra c c') : Keeps c.conn c'.conn := by
  rw [h.conn]
  exact .of_lasting rfl

theorem ext_io {w : Pqwire} {c c' : Cell} (h : Io [] c c') : Widens w c c' where
  slot := h.slot
  keeps := h.keeps
  log := by
    obtain ⟨l, hl, hio, hsub, heq⟩ := h.log
    have hproduced := produced_io (w := w) hio
    refine ⟨l, hl, fun hmem => hio .closed hmem, fun _ => ?_, fun _ hnone => ?_, ?_,
      fun _ => explained_io hio, fun t ht => (hio _ ht).elim⟩
    · rw [hproduced, List.append_nil]
      exact hsub
    · rw [hproduced, List.append_nil]
      exact heq hnone
    · rw [h.conn]
      exact ledger_io hio
  sq := h.sq_ext.1
  sends := h.sends
  pending := h.sq_ext.2

/-- Backend bytes go to the send buffer ahead of what is still in the context. -/
theorem ext_queueBackend {w : Pqwire} (c : Cell) (data : Bytes) :
    Widens w c (queueBackend c data).1 := by
  have hio := (queuePlainSend_io (c.note (.handed c.conn.frontend data)) data).1
  unfold queueBackend
  generalize (queuePlainSend (c.note (.handed c.conn.frontend data)) data).1 = c' at hio
  obtain ⟨l, hl, hall, hsub, heq⟩ := hio.log
  have hproduced : produced w ([.handed c.conn.frontend data] ++ l) = data := by
    rw [produced_append, produced_io hall, List.append_nil]
    simp [produced]
  have hcomm : Unmixed ([.handed c.conn.frontend data] ++ l) →
      data ++ c.conn.frontend = c.conn.frontend ++ data := by
    intro hun
    rcases hun c.conn.frontend data List.mem_cons_self with h | h
    · rw [h, List.append_nil, List.nil_append]
    · rw [h, List.append_nil, List.nil_append]
  have hown : ∀ r, Own (c.note (.handed c.conn.frontend data)) r → Own c r :=
    fun r hr => hr.of_eq rfl rfl rfl
  obtain ⟨⟨new, hnew, hnewOwn, hcount⟩, hpending⟩ := hio.sq_ext
  have hnote : Keeps c.conn (c.note (.handed c.conn.frontend data)).conn := .of_lasting rfl
  refine ⟨⟨hio.slot, hnote.trans hio.keeps,
    ⟨[.handed c.conn.frontend data] ++ l, ?_, ?_, fun hun => ?_, fun hun hnone => ?_, ?_, fun _ => ?_, ?_⟩,
    ⟨new, hnew, fun r hr => hown r (hnewOwn r hr), hcount⟩,
    hio.sends.of_flags rfl rfl rfl hown hio.sends.flows⟩, hpending⟩
  · rw [hl]
    simp [Cell.note, Conn.note]
  · rintro (_ | ⟨_, hmem⟩)
    exact hall .closed hmem
  · rw [hproduced, ← hcomm hun]
    exact hsub
  · rw [hproduced, ← hcomm hun]
    exact heq fun d hd => hnone d (List.mem_append_right _ hd)
  · rw [hio.conn]
    exact .other (ledger_io hall) id
  · exact (explained_singleton (by rintro (h | h | ⟨t, h⟩) <;> cases h)
      (by rintro (h | h | h | h | h) <;> cases h)).append (explained_io hall)
  · intro t ht
    rcases List.mem_append.mp ht with h | h
    · cases List.mem_singleton.mp h
    · exact (hall _ h).elim

section

variable {w : Pqwire}

theorem ext_note (c : Cell) {o : Obs} (ho : o.Plain) : Widens w c (c.note o) := .of_adds (.note _ ho)

theorem ext_onConn (c : Cell) {f : Conn → Conn × Bool} (h : Adds w c.conn (f c.conn).1) :
    Widens w c (c.onConn f).1 := .of_adds h

/-- A request to the backend becomes pending when its entry is prepared. -/
theorem grows_prep (c : Cell) {r : Request} {mark : Conn → Conn} (hown : Own c r)
    (hmark : Adds w c.conn { mark c.conn with
      beSendPending := c.conn.beSendPending, beRecvPending := c.conn.beRecvPending })
    (hsend : opCount .beSend [r] + c.conn.beSendPending.toNat = (mark c.conn).beSendPending.toNat)
    (hrecv : opCount .beRecv [r] + c.conn.beRecvPending.toNat = (mark c.conn).beRecvPending.toNat) :
    Grows w c (c.prep r mark).1 := by
  rcases prep_cases c r mark with h | h
  · rw [h]
    obtain ⟨l, hl, hfits⟩ := hmark.log
    have hsends := (Widens.of_adds hmark).sends
    exact ⟨rfl, hmark.keeps.trans (.of_lasting rfl),
      ⟨l, hl, hfits.closed, hfits.order, hfits.whole, hfits.queue, hfits.explained, hfits.tag⟩,
      ⟨[r], rfl, by simpa using hown, hsend, hrecv⟩,
      hsends.trans (.of_same rfl rfl rfl id) (fun r hr => hr.of_eq rfl hmark.keeps.gen hmark.keeps.ssl)
        (fun _ => id) fun r hr => List.mem_append_left _ hr⟩
  · rw [h]
    exact (ext_note c (o := .noSqe) trivial).toGrows

theorem grows_submitBeRecv (backends : Nat → BackendConn) (c : Cell) :
    Grows w c (submitBeRecv backends c).1 := by
  unfold submitBeRecv
  split
  · exact (Widens.refl c).toGrows
  · split
    · exact (Widens.refl c).toGrows
    · rename_i hpending
      rw [Bool.not_eq_true] at hpending
      exact grows_prep c ⟨rfl, rfl, by simp [Cell.request], nofun⟩ (.of_fields rfl rfl rfl (.of_lasting rfl) rfl)
        (by simp [opCount, Cell.request]) (by simp [opCount, Cell.request, hpending])

theorem grows_submitBeSend (backends : Nat → BackendConn) (c : Cell) :
    Grows w c (submitBeSend backends c).1 := by
  unfold submitBeSend
  split
  · exact (Widens.refl c).toGrows
  · split
    · exact (ext_note c (o := .crossed) trivial).toGrows
    · rename_i hpending
      rw [Bool.not_eq_true] at hpending
      split
      · have hwait : Widens w c { c with conn := { c.conn with beWait := .reading } } :=
          .of_adds (.of_fields rfl rfl rfl (.of_lasting rfl) rfl)
        exact hwait.toGrows.trans (grows_submitBeRecv backends _)
      · exact grows_prep c ⟨rfl, rfl, by simp [Cell.request], nofun⟩
          (.of_fields rfl rfl rfl (.of_lasting rfl) rfl)
          (by simp [opCount, Cell.request, hpending]) (by simp [opCount, Cell.request])

theorem ext_answerSync (c : Cell) : Widens w c (answerSync w c).1 := by
  unfold answerSync
  split
  · have hqueue := ext_queueBackend (w := w) c c.conn.beResp.bytes
    generalize queueBackend c c.conn.beResp.bytes = r at hqueue
    obtain ⟨c₁, _ | _⟩ := r
    · exact hqueue
    · exact hqueue.trans (.of_adds (adds_resp _ _))
  · exact ext_onConn c (adds_reply _ free_readyForQuery)

theorem ext_answerQueuedSync (c : Cell) : Widens w c (answerQueuedSync w c) := by
  unfold answerQueuedSync
  split
  · exact (ext_queueBackend c _).trans (.of_adds (adds_resp _ _))
  · exact ext_onConn c (adds_reply _ free_readyForQuery)

theorem ext_forwarded (c : Cell) (r : ExecResult) :
    Widens w c { c with conn := (c.conn.note (.forwarded c.conn.beResp.len)).fillResp r } :=
  (ext_note c (o := .forwarded c.conn.beResp.len) trivial).trans (.of_adds (adds_resp _ _))

theorem free_forwardError : forwardError.Free :=
  free_error (by simp [pipelineError])

theorem ext_answerQuery (c : Cell) (r : ExecResult) : Widens w c (answerQuery w c r).1 := by
  unfold answerQuery
  refine (ext_forwarded c r).trans ?_
  split
  · exact ext_queueBackend _ _
  · exact ext_onConn _ (adds_replyThen _ free_forwardError free_readyForQuery)

theorem ext_answerQueuedQuery (c : Cell) (r : ExecResult) :
    Widens w c (answerQueuedQuery w c r) := by
  unfold answerQueuedQuery
  refine (ext_forwarded c r).trans ?_
  split
  · exact ext_queueBackend _ _
  · exact .of_adds (adds_replyBoth _ free_forwardError free_readyForQuery)

theorem ext_sendResult (c : Cell) (hadError : Bool) : Widens w c (sendResult w c hadError).1 := by
  unfold sendResult
  have hqueue := ext_queueBackend (w := w) c c.conn.beResp.bytes
  generalize queueBackend c c.conn.beResp.bytes = r at hqueue
  obtain ⟨c₁, ok⟩ := r
  split
  · cases ok with
    | false => exact hqueue
    | true => exact hqueue.trans (.of_adds (adds_resp _ _))
  · split
    · cases ok with
      | false => exact hqueue
      | true =>
          exact hqueue.trans (.of_adds (.of_fields rfl rfl rfl (.of_lasting rfl) rfl))
    · split
      · exact ext_onConn c (adds_reply _ free_readyForQuery)
      · exact .refl c

/-- The queue of a pipeline that failed is emptied. -/
theorem adds_discard (c : Conn) :
    Adds w c { feqClearAll (c.note (.completed true)) with gotExecute := false } := by
  refine ⟨.of_lasting rfl, rfl, [.completed true, .discarded c.feQ.toList],
    by simp [feqClearAll, Conn.note], by simp, fun _ => ?_, fun _ _ => ?_, ?_, fun _ => ⟨?_, ?_, ?_⟩,
    by simp⟩
  · simp [feqClearAll, Conn.note, produced, wireBytes]
  · simp [feqClearAll, Conn.note, produced, wireBytes]
  · exact .other (.discarded .nil) id
  · exact List.isChain_cons_cons.mpr ⟨follows_completed _, List.isChain_singleton _⟩
  · rintro a ⟨⟩ (h | h | ⟨t, h⟩) <;> cases h
  · rintro a ⟨⟩ (h | h | h | h | h) <;> cases h

theorem ext_deliverResult (c : Cell) (hadError : Bool) :
    Widens w c (deliverResult w c hadError).1 := by
  -- the queue is emptied, or the Bind is acknowledged
  have hfirst : Widens w c { c with conn := (if hadError = true then
      ({ feqClearAll (c.conn.note (.completed hadError)) with gotExecute := false }, true)
      else reply w (c.conn.note (.completed hadError)) .bindComplete).1 } := by
    cases hadError with
    | false => exact .of_adds (adds_acknowledge c.conn rfl)
    | true => exact .of_adds (adds_discard c.conn)
  unfold deliverResult
  dsimp only
  generalize (if hadError = true then
      ({ feqClearAll (c.conn.note (.completed hadError)) with gotExecute := false }, true)
      else reply w (c.conn.note (.completed hadError)) .bindComplete) = r at hfirst ⊢
  obtain ⟨conn, ok⟩ := r
  cases ok with
  | false => exact hfirst
  | true =>
      have hsend := ext_sendResult (w := w) { c with conn := conn } hadError
      rw [if_neg (by simp)]
      generalize sendResult w { c with conn := conn } hadError = r at hsend ⊢
      obtain ⟨c₁, _ | _⟩ := r
      · exact hfirst.trans hsend
      · exact (hfirst.trans hsend).trans (ext_io (drainFrontendOut_io c₁).1)

theorem ext_reportLost (c : Cell) : Widens w c (reportLost w c).1 := by
  have herror : Adds w c.conn (replyBoth w { (c.conn.note .lost).emptyResp with be := none }
      pipelineError .readyForQuery) := by
    have hfields : Adds w c.conn { c.conn with beResp := c.conn.emptyResp.beResp, be := none } :=
      .of_fields rfl rfl rfl (.of_lasting rfl) rfl
    exact hfields.trans (adds_pipelineError _)
  exact (Widens.of_adds herror).trans (ext_io (drainFrontendOut_io _).1)

theorem adds_checkingOut (c : Conn) : Adds w c c.checkingOut := .note c trivial

theorem Arrives.ext {c c₁ : Cell} {it : FeqItem} (h : Arrives c it c₁) : Widens w c c₁ := by
  cases h with
  | direct => exact .of_adds (.note _ trivial)
  | popped _ hpop => exact .of_adds (adds_feqPop hpop)

theorem adds_clearing (c : Conn) : Adds w c c.emptyResp.clearGot := .of_fields rfl rfl rfl (.of_lasting rfl) rfl

/-- Taking up a Bind concerns the connection alone. -/
theorem BindArrives.adds {c c₁ : Cell} {src : BindSource} (h : BindArrives w c src c₁) :
    Adds w c.conn c₁.conn ∧ c₁ = { c with conn := c₁.conn } := by
  cases h with
  | @direct bind =>
      have hnotes : Adds w c.conn ((c.conn.received (.bind bind)).binding w bind) :=
        (Adds.note c.conn (o := .received ..) trivial).trans (.note _ trivial)
      exact ⟨hnotes.trans (adds_clearing _), rfl⟩
  | popped _ hpop => exact ⟨(adds_feqPop hpop).trans (.note _ trivial), rfl⟩
  | again => exact ⟨.refl c.conn, rfl⟩

theorem BindArrives.ext {c c₁ : Cell} {src : BindSource} (h : BindArrives w c src c₁) :
    Widens w c c₁ := by
  rw [h.adds.2]
  exact .of_adds h.adds.1

theorem Tried.adds {c c' : Cell} (h : Tried c c') :
    Adds w c.conn c'.conn ∧ c' = { c with conn := c'.conn } := by
  obtain ⟨l, rfl, hl⟩ := h
  refine ⟨⟨.of_lasting rfl, rfl, l, rfl, fits_plain (fun o ho => ?_) rfl rfl⟩, rfl⟩
  rcases hl o ho with ⟨rfl, -⟩ | ⟨it, rfl⟩
  · trivial
  · trivial

theorem Tried.ext {c c' : Cell} (h : Tried c c') : Widens w c c' := by
  rw [(h.adds (w := w)).2]
  exact .of_adds h.adds.1

theorem adds_requeue {c c' : Conn} {src : BindSource} (h : requeue w c src = some c') :
    Adds w c c' := by
  cases src with
  | event bind =>
      have hpush := adds_feqPushBind (w := w) c bind
      dsimp only [requeue] at h
      generalize feqPushBind w c bind = r at h hpush
      obtain ⟨c₁, _ | _⟩ := r
      · exact absurd h nofun
      · exact Option.some.inj h ▸ hpush
  | queue it => exact adds_feqPutBack h

theorem Answers.ext {cfg : Config} {hasPool : Bool} {c c' : Cell} {it : FeqItem}
    (h : Answers w cfg hasPool c it c') : Widens w c c' := by
  cases h with
  | none => exact .refl c
  | parse msg => exact .of_adds (adds_answerParse cfg _ msg)
  | execute => exact ext_onConn c (adds_answerExecute hasPool _)
  | sync => exact ext_answerSync c
  | queuedSync => exact ext_answerQueuedSync c
  | query sql reject => exact ext_onConn c (adds_onSimpleQuery _ reject)
  | forward => exact (Widens.of_adds (adds_checkingOut _)).trans (ext_answerQuery _ _)
  | queuedForward => exact (Widens.of_adds (adds_checkingOut _)).trans (ext_answerQueuedQuery _ _)
  | terminate hopen =>
      refine .of_adds (.of_fields rfl rfl rfl ⟨rfl, rfl, rfl, ?_, ?_, fun _ => ⟨rfl, rfl⟩⟩ rfl)
      · exact ⟨nofun, fun hfree => absurd hfree hopen.1⟩
      · exact nofun

theorem grows_startOn (c : Cell) (b : Nat) (h : BackendConn) : Grows w c (c.startOn b h).1 := by
  have hbegin : Adds w c.conn (c.conn.begun b) := by
    have hnotes := (adds_checkingOut (w := w) c.conn).trans (.note _ (o := .began) trivial)
    have hlog : (c.conn.begun b).log = (c.conn.checkingOut.note .began).log := by rw [begun_eq]; rfl
    refine hnotes.trans (.of_fields hlog ?_ ?_ ?_ ?_)
    · rw [begun_eq]; rfl
    · rw [begun_eq]; rfl
    · rw [begun_eq]; exact .of_lasting rfl
    · rw [begun_eq]; rfl
  rw [startOn_eq]
  exact (Widens.of_adds hbegin).toGrows.trans (grows_submitBeSend _ _)

theorem ext_release (c : Cell) : Widens w c (c.upd Conn.release) :=
  .of_adds (.of_fields rfl rfl rfl (.of_lasting rfl) rfl)

/-- A turn leaves the backend alone, or begins a pipeline. -/
theorem Act.widens {cfg : Config} {hasPool : Bool} {c c' : Cell} {h h' : BackendConn}
    (ha : Act w cfg hasPool c h c' h') : (Widens w c c' ∧ h' = h) ∨
      ∃ src b h₁ c₁ c₂ ok, BindArrives w c src c₁ ∧ c₁.startOn b h₁ = (c₂, ok) ∧
        (ok = true → c' = c₂ ∧ h' = h₁) ∧ Widens w c₂ c' := by
  have hclosing : ∀ c : Cell, c.conn.Open → Widens w c (c.upd fun conn => { conn with state := .closing }) :=
    fun c hopen => (Answers.terminate hopen : Answers w cfg hasPool c _ _).ext
  cases ha with
  | io hio => exact Or.inl ⟨ext_io hio, rfl⟩
  | feed => exact Or.inl ⟨ext_note c (o := .fed ..) trivial, rfl⟩
  | startup =>
      exact Or.inl ⟨(ext_note c (o := .received ..) trivial).trans
        (ext_onConn _ (adds_answerStartup _)), rfl⟩
  | ignore => exact Or.inl ⟨ext_note c (o := .received ..) trivial, rfl⟩
  | terminate hopen =>
      exact Or.inl ⟨(ext_note c (o := .received .terminate c.conn.beWait) trivial).trans
        (hclosing _ hopen), rfl⟩
  | enqueue =>
      exact Or.inl ⟨.of_adds ((Adds.note _ (o := .received ..) trivial).trans (adds_queueEvent _ _)), rfl⟩
  | answer harrive hanswer => exact Or.inl ⟨harrive.ext.trans hanswer.ext, rfl⟩
  | begin harrive hready hbegun hstart =>
      exact Or.inr ⟨_, _, _, _, _, _, harrive, hstart, fun _ => ⟨rfl, rfl⟩, .refl _⟩
  | @park c₁ c₂ h src conn free harrive htried hqueue hfree =>
      have hpark : Adds w conn { conn.note (.parked free) with beWait := .waitingPool } :=
        (Adds.note conn (o := .parked free) trivial).trans (.of_fields rfl rfl rfl (.of_lasting rfl) rfl)
      exact Or.inl ⟨.of_adds (((harrive.adds.1.trans htried.adds.1).trans
        (adds_requeue hqueue)).trans hpark), rfl⟩
  | bind harrive htried _ _ _ hwhy =>
      exact Or.inl ⟨(harrive.ext.trans htried.ext).trans (ext_onConn _ (adds_answerBind _ hwhy _)), rfl⟩
  | @lost c₁ c₂ c₃ h h' src b harrive hready hstart hsend =>
      have hlost := ext_reportLost (w := w) c₂
      rw [hsend] at hlost
      exact Or.inr ⟨_, _, _, _, _, _, harrive, hstart, nofun, hlost.trans (ext_release c₃)⟩
  | @lostCut c₁ c₂ c₃ h h' src b harrive hready hstart hsend =>
      have hlost := ext_reportLost (w := w) c₂
      rw [hsend] at hlost
      exact Or.inr ⟨_, _, _, _, _, _, harrive, hstart, nofun, hlost⟩
  | draining v =>
      exact Or.inl ⟨.of_adds (.of_fields rfl rfl rfl (.of_lasting rfl) rfl), rfl⟩
  | unpark =>
      exact Or.inl ⟨.of_adds (.of_fields rfl rfl rfl (.of_lasting rfl) rfl), rfl⟩
  | @repark h free =>
      have hpark : Adds w c.conn { c.conn.note (.parked free) with beWait := .waitingPool } :=
        (Adds.note c.conn (o := .parked free) trivial).trans (.of_fields rfl rfl rfl (.of_lasting rfl) rfl)
      exact Or.inl ⟨.of_adds hpark, rfl⟩
  | handshake peer hstate =>
      have hsame : ∃ id ready, (tlsOnHandshakeDone cfg peer c.conn).1 =
          { c.conn.note (.authenticated peer.id peer.ok) with
            state := .active, id := id, identityReady := ready } := by
        unfold tlsOnHandshakeDone
        dsimp only
        split
        · exact ⟨_, _, rfl⟩
        · exact ⟨_, _, rfl⟩
      obtain ⟨id, ready, heq⟩ := hsame
      have hnote : Adds w c.conn (c.conn.note (.authenticated peer.id peer.ok)) := .note _ trivial
      refine Or.inl ⟨ext_onConn c ?_, rfl⟩
      rw [heq]
      refine hnote.trans (.of_fields rfl rfl rfl ⟨rfl, rfl, rfl, ?_, nofun, ?_⟩ rfl)
      · exact ⟨nofun, fun hfree => absurd (hstate.symm.trans hfree) nofun⟩
      · exact fun hne => absurd hstate hne
  | closing hopen => exact Or.inl ⟨hclosing c hopen, rfl⟩

/-- Every turn lets the history of its connection grow. -/
theorem Act.grows {cfg : Config} {hasPool : Bool} {c c' : Cell} {h h' : BackendConn}
    (ha : Act w cfg hasPool c h c' h') : Grows w c c' := by
  rcases ha.widens with ⟨hwidens, -⟩ | ⟨src, b, h₁, c₁, c₂, ok, harrive, hstart, -, hwidens⟩
  · exact hwidens.toGrows
  · have hgrows := grows_startOn (w := w) c₁ b h₁
    rw [hstart] at hgrows
    exact (harrive.ext.toGrows.trans hgrows).trans hwidens.toGrows

/-- The completion of a backend request goes on from the moment its flag is cleared, and prepares at most
the next one. -/
theorem Land.widens {op : Op} {c c' : Cell} {h h' : BackendConn} (hl : Land w op c h c' h') :
    ∃ c₁, Widens w (c.upd fun conn => conn.landed op) c₁ ∧
      (c' = c₁ ∨ c' = (submitBeSend (fun _ => h') c₁).1 ∨ c' = (submitBeRecv (fun _ => h') c₁).1) := by
  have hdata : ∀ (resp : RespBuf) (data : Bytes), Widens w (c.upd fun conn => conn.landed .beRecv)
      (c.upd fun conn => (conn.landed .beRecv).gotData resp data) := fun resp data =>
    .of_adds ((adds_resp (c.conn.landed .beRecv) resp).trans (.note _ (o := .beData data) trivial))
  cases hl with
  | sent => exact ⟨_, .refl _, Or.inr (Or.inl rfl)⟩
  | resend => exact ⟨_, .refl _, Or.inr (Or.inl rfl)⟩
  | @more _ _ _ data resp => exact ⟨_, hdata resp (usedUp h h' data), Or.inr (Or.inr rfl)⟩
  | @complete _ c₁ _ h' data resp hbe hrecv hsend =>
      have hdeliver := ext_deliverResult (w := w)
        (c.upd fun conn => (conn.landed .beRecv).gotData resp (usedUp h h' data)) h'.pipeSt.sawError
      rw [hsend] at hdeliver
      have hrelease : Widens w c₁ (c₁.upd fun conn => Conn.release { conn with be := none }) :=
        .of_adds (.of_fields rfl rfl rfl (.of_lasting rfl) rfl)
      exact ⟨_, ((hdata resp (usedUp h h' data)).trans hdeliver).trans hrelease, Or.inl rfl⟩
  | completeCut hbe hrecv hsend =>
      rename_i data resp
      have hdeliver := ext_deliverResult (w := w)
        (c.upd fun conn => (conn.landed .beRecv).gotData resp (usedUp h h' data)) h'.pipeSt.sawError
      rw [hsend] at hdeliver
      exact ⟨_, (hdata resp (usedUp h h' data)).trans hdeliver, Or.inl rfl⟩
  | @lost _ _ c₁ _ resp _ hsend =>
      have hlost := ext_reportLost (w := w) (c.upd fun conn => { conn.landed op with beResp := resp })
      rw [hsend] at hlost
      have hresp : Widens w (c.upd fun conn => conn.landed op)
        (c.upd fun conn => { conn.landed op with beResp := resp }) := .of_adds (adds_resp _ resp)
      exact ⟨_, (hresp.trans hlost).trans (ext_release c₁), Or.inl rfl⟩
  | @lostCut _ _ _ _ resp _ hsend =>
      have hlost := ext_reportLost (w := w) (c.upd fun conn => { conn.landed op with beResp := resp })
      rw [hsend] at hlost
      have hresp : Widens w (c.upd fun conn => conn.landed op)
        (c.upd fun conn => { conn.landed op with beResp := resp }) := .of_adds (adds_resp _ resp)
      exact ⟨_, hresp.trans hlost, Or.inl rfl⟩

/-- So does the history of its connection. -/
theorem Land.grows {op : Op} {c c' : Cell} {h h' : BackendConn} (hl : Land w op c h c' h') :
    Grows w (c.upd fun conn => conn.landed op) c' := by
  obtain ⟨c₁, hwidens, rfl | rfl | rfl⟩ := hl.widens
  · exact hwidens.toGrows
  · exact hwidens.toGrows.trans (grows_submitBeSend _ _)
  · exact hwidens.toGrows.trans (grows_submitBeRecv _ _)

end

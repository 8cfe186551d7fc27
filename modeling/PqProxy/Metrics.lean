import PqProxy.Exposition
import PqProxy.Runs

/-! The counters of the process and how they are told: a line for the log in two formats, and the text a
scraper gets over HTTP. The event loop is the only writer; that the scraping thread reads while it
writes is left out. -/

open Exposition

/-- `pqproxy_metrics_t`. -/
structure Metrics where
  accepts : UInt64
  frontendCloses : UInt64
  backendPipelinesOk : UInt64
  backendPipelinesFail : UInt64
  feQueueEnqueued : UInt64
  feQueueFull : UInt64
  feQueueHighWater : UInt64
  reconnects : UInt64
  maintainTicks : UInt64
  maintainRewarmed : UInt64
  backendWaitNsTotal : UInt64
  backendWaitSamples : UInt64
  backendWaitNsMax : UInt64
  fairWaits : UInt64
  fairSchedules : UInt64
  liveBackends : UInt64
  activeFrontends : UInt64
  poolWaiters : UInt64
  deriving DecidableEq

def Metrics.zero : Metrics := ⟨0, 0, 0, 0, 0, 0, 0, 0, 0, 0, 0, 0, 0, 0, 0, 0, 0, 0⟩

/-- The functions of `metrics_internal.h`. -/
inductive MetricsCall where
  | incAccepts
  | incCloses
  | incBeOk
  | incBeFail
  | incFeQEnq
  | incFeQFull
  | noteFeQDepth (depth : UInt64)
  | incReconnects (n : UInt32)
  | incMaintain (rewarmed : UInt32)
  | noteBackendWaitNs (ns : UInt64)
  | incFairWaits
  | incFairSchedules
  | setGauges (liveBe activeFe : UInt64)
  | setPoolWaiters (n : UInt64)

def Metrics.apply (m : Metrics) : MetricsCall → Metrics
  | .incAccepts => { m with accepts := m.accepts + 1 }
  | .incCloses => { m with frontendCloses := m.frontendCloses + 1 }
  | .incBeOk => { m with backendPipelinesOk := m.backendPipelinesOk + 1 }
  | .incBeFail => { m with backendPipelinesFail := m.backendPipelinesFail + 1 }
  | .incFeQEnq => { m with feQueueEnqueued := m.feQueueEnqueued + 1 }
  | .incFeQFull => { m with feQueueFull := m.feQueueFull + 1 }
  | .noteFeQDepth depth =>
      if m.feQueueHighWater < depth then { m with feQueueHighWater := depth } else m
  | .incReconnects n => { m with reconnects := m.reconnects + n.toUInt64 }
  | .incMaintain rewarmed => { m with
      maintainTicks := m.maintainTicks + 1, maintainRewarmed := m.maintainRewarmed + rewarmed.toUInt64 }
  | .noteBackendWaitNs ns =>
      let m := { m with
        backendWaitNsTotal := m.backendWaitNsTotal + ns, backendWaitSamples := m.backendWaitSamples + 1 }
      if m.backendWaitNsMax < ns then { m with backendWaitNsMax := ns } else m
  | .incFairWaits => { m with fairWaits := m.fairWaits + 1 }
  | .incFairSchedules => { m with fairSchedules := m.fairSchedules + 1 }
  | .setGauges liveBe activeFe => { m with liveBackends := liveBe, activeFrontends := activeFe }
  | .setPoolWaiters n => { m with poolWaiters := n }

/-- The average wait in microseconds. -/
def Metrics.avgUs (m : Metrics) : UInt64 :=
  if 0 < m.backendWaitSamples then m.backendWaitNsTotal / m.backendWaitSamples / 1000 else 0

/-- The longest wait in microseconds. -/
def Metrics.maxUs (m : Metrics) : UInt64 := m.backendWaitNsMax / 1000

/-- What a log line tells. -/
def Metrics.fields (m : Metrics) : List (Text × Nat) :=
  [("accepts".toList, m.accepts.toNat), ("closes".toList, m.frontendCloses.toNat),
    ("be_ok".toList, m.backendPipelinesOk.toNat), ("be_fail".toList, m.backendPipelinesFail.toNat),
    ("be_wait_us_avg".toList, m.avgUs.toNat), ("be_wait_us_max".toList, m.maxUs.toNat),
    ("fe_q_enq".toList, m.feQueueEnqueued.toNat), ("fe_q_full".toList, m.feQueueFull.toNat),
    ("fe_q_hwm".toList, m.feQueueHighWater.toNat), ("reconnects".toList, m.reconnects.toNat),
    ("maintain_ticks".toList, m.maintainTicks.toNat), ("rewarmed".toList, m.maintainRewarmed.toNat),
    ("fair_waits".toList, m.fairWaits.toNat), ("fair_sched".toList, m.fairSchedules.toNat),
    ("pool_waiters".toList, m.poolWaiters.toNat), ("live_be".toList, m.liveBackends.toNat),
    ("active_fe".toList, m.activeFrontends.toNat)]

/-- What `snprintf` leaves of a text in a buffer. -/
def printed (t : Text) (size : Nat) : Text := t.take (size - 1)

/-- `pqproxy_metrics_format`. -/
def metricsFormat (m : Metrics) (outLen : Nat) : Text :=
  printed (fieldLine ' ' '=' "pqproxy_metrics".toList m.fields) outLen

def quoted (t : Text) : Text := '"' :: t ++ ['"']

/-- The same under the names JSON gives them. -/
def Metrics.jsonFields (m : Metrics) : List (Text × Nat) := m.fields.map fun f => (quoted f.1, f.2)

/-- `pqproxy_metrics_format_json`. -/
def metricsFormatJson (m : Metrics) (outLen : Nat) : Text :=
  printed ('{' :: fieldLine ',' ':' (quoted "event".toList ++ ':' :: quoted "metrics".toList) m.jsonFields ++
    ['}']) outLen

/-- The members of an object. -/
def readJson (t : Text) : List (Text × Nat) := readFields ',' ':' (t.drop 1).dropLast

theorem toNat_lt (v : UInt64) : v.toNat < 100000000000000000000 := v.toNat_lt.trans (by decide)

theorem Metrics.fields_lt (m : Metrics) : ∀ f ∈ m.fields, f.2 < 10 ^ 20 := by
  simp [Metrics.fields, toNat_lt]

theorem Metrics.fields_names (m : Metrics) :
    ∀ f ∈ m.fields, ' ' ∉ f.1 ∧ '=' ∉ f.1 ∧ ',' ∉ f.1 ∧ ':' ∉ f.1 := by
  simp [Metrics.fields]

theorem printed_of_lt {t : Text} {size : Nat} (h : t.length < size) : printed t size = t :=
  List.take_of_length_le (by omega)

theorem metricsFormat_whole (m : Metrics) :
    metricsFormat m 768 = fieldLine ' ' '=' "pqproxy_metrics".toList m.fields := by
  refine printed_of_lt ((length_fieldLine ' ' '=' _ m.fields_lt).trans_lt ?_)
  simp [Metrics.fields]

theorem metricsFormatJson_whole (m : Metrics) : metricsFormatJson m 768 =
    '{' :: fieldLine ',' ':' (quoted "event".toList ++ ':' :: quoted "metrics".toList) m.jsonFields ++
      ['}'] := by
  refine printed_of_lt ?_
  have hlt : ∀ f ∈ m.jsonFields, f.2 < 10 ^ 20 := by
    intro f hf
    obtain ⟨g, hg, rfl⟩ := List.mem_map.mp hf
    exact m.fields_lt g hg
  have hline := length_fieldLine ',' ':' (quoted "event".toList ++ ':' :: quoted "metrics".toList) hlt
  rw [List.length_append, List.length_cons]
  refine Nat.lt_of_le_of_lt (Nat.add_le_add_right (Nat.add_le_add_right hline 1) 1) ?_
  simp [Metrics.jsonFields, Metrics.fields, quoted]

/-- Whatever the counters are, both formats of the line that `server_tick` logs are whole in its buffer, and
whoever reads either learns the same numbers. -/
theorem logged_metrics (m : Metrics) : readFields ' ' '=' (metricsFormat m 768) = m.fields ∧
    readJson (metricsFormatJson m 768) = m.fields.map fun f => (quoted f.1, f.2) := by
  constructor
  · rw [metricsFormat_whole]
    refine readFields_fieldLine (by decide) (by decide) (by simp) ?_ fun f hf => ?_
    · simp [pairOf]
    · exact ⟨(m.fields_names f hf).1, (m.fields_names f hf).2.1⟩
  · rw [metricsFormatJson_whole]
    unfold readJson
    rw [List.cons_append, List.drop_one, List.tail_cons, List.dropLast_concat]
    refine readFields_fieldLine (by decide) (by decide) (by simp [quoted]) ?_ fun f hf => ?_
    · simp [pairOf, quoted]
    · obtain ⟨g, hg, rfl⟩ := List.mem_map.mp hf
      obtain ⟨-, -, hcomma, hcolon⟩ := m.fields_names g hg
      simp [quoted, hcomma, hcolon]

/-! ### The scrape -/

def counterOf (name help : String) (v : UInt64) : Family :=
  ⟨name.toList, help.toList, "counter".toList, v.toNat⟩

def gaugeOf (name help : String) (v : UInt64) : Family :=
  ⟨name.toList, help.toList, "gauge".toList, v.toNat⟩

/-- What a scrape tells. -/
def Metrics.families (m : Metrics) : List Family :=
  [counterOf "pqproxy_accepts_total" "Frontend connections accepted" m.accepts,
    counterOf "pqproxy_frontend_closes_total" "Frontend connections closed" m.frontendCloses,
    counterOf "pqproxy_backend_pipelines_ok_total" "Successful backend pipelines" m.backendPipelinesOk,
    counterOf "pqproxy_backend_pipelines_fail_total" "Failed backend pipelines" m.backendPipelinesFail,
    gaugeOf "pqproxy_backend_wait_microseconds_avg" "Average backend pipeline wait" m.avgUs,
    gaugeOf "pqproxy_backend_wait_microseconds_max" "Max backend pipeline wait" m.maxUs,
    counterOf "pqproxy_fe_queue_enqueued_total" "Frontend queue enqueues" m.feQueueEnqueued,
    counterOf "pqproxy_fe_queue_full_total" "Frontend queue full events" m.feQueueFull,
    gaugeOf "pqproxy_fe_queue_high_water" "Max observed frontend queue depth" m.feQueueHighWater,
    counterOf "pqproxy_reconnects_total" "Successful backend reconnects" m.reconnects,
    counterOf "pqproxy_maintain_ticks_total" "Pool maintain ticks" m.maintainTicks,
    counterOf "pqproxy_maintain_rewarmed_total" "Backends re-warmed by maintain" m.maintainRewarmed,
    counterOf "pqproxy_fair_waits_total" "Frontends parked waiting for backend" m.fairWaits,
    counterOf "pqproxy_fair_schedules_total" "Waiters granted a backend (RR)" m.fairSchedules,
    gaugeOf "pqproxy_pool_waiters" "Frontends currently waiting for a backend" m.poolWaiters,
    gaugeOf "pqproxy_live_backends" "Live backend connections" m.liveBackends,
    gaugeOf "pqproxy_active_frontends" "Active frontend connections" m.activeFrontends]

/-- `pqproxy_metrics_prometheus_format`. -/
def prometheusFormat (m : Metrics) (outLen : Nat) : Option Text :=
  if outLen < 64 then none
  else if outLen ≤ (render m.families).length then none
  else some (render m.families)

theorem printable_counterOf {name help : String} (h : name.toList.head? ≠ some '#' ∧ ' ' ∉ name.toList ∧
    '\n' ∉ name.toList ∧ '\n' ∉ help.toList) (v : UInt64) : (counterOf name help v).Printable :=
  ⟨h.1, h.2.1, h.2.2.1, h.2.2.2, by simp [counterOf]⟩

theorem printable_gaugeOf {name help : String} (h : name.toList.head? ≠ some '#' ∧ ' ' ∉ name.toList ∧
    '\n' ∉ name.toList ∧ '\n' ∉ help.toList) (v : UInt64) : (gaugeOf name help v).Printable :=
  ⟨h.1, h.2.1, h.2.2.1, h.2.2.2, by simp [gaugeOf]⟩

theorem Metrics.families_printable (m : Metrics) : ∀ f ∈ m.families, f.Printable := by
  simp [Metrics.families, printable_counterOf, printable_gaugeOf]

theorem Metrics.length_render (m : Metrics) : (render m.families).length < 6144 := by
  have hlt : ∀ f ∈ m.families, f.value < 10 ^ 20 := by
    simp [Metrics.families, counterOf, gaugeOf, toNat_lt]
  refine (Exposition.length_render hlt).trans_lt ?_
  simp [Metrics.families, counterOf, gaugeOf]

/-- What `metrics_http_thread` writes in answer to a request that it has read, up to its first zero byte. -/
def metricsHttp (m : Metrics) (req : Text) : Text :=
  if "GET /metrics".toList <+: req then
    match prometheusFormat m 6144 with
    | none => response ["HTTP/1.1 500 Internal Server Error".toList, "Connection: close".toList] []
    | some body =>
        let resp := response ["HTTP/1.1 200 OK".toList,
          "Content-Type: text/plain; version=0.0.4; charset=utf-8".toList,
          lengthName ++ ' ' :: digits body.length, "Connection: close".toList] []
        if resp.length + body.length < 6656 then resp ++ body else []
  else if "GET /health".toList <+: req then
    response ["HTTP/1.1 200 OK".toList, "Content-Type: text/plain".toList, "Content-Length: 3".toList,
      "Connection: close".toList] "ok\n".toList
  else
    response ["HTTP/1.1 404 Not Found".toList, "Content-Length: 10".toList, "Connection: close".toList]
      "not found\n".toList

/-- What a client should learn: the status line and the body. -/
def metricsAnswer (m : Metrics) (req : Text) : Text × Text :=
  if "GET /metrics".toList <+: req then ("HTTP/1.1 200 OK".toList, render m.families)
  else if "GET /health".toList <+: req then ("HTTP/1.1 200 OK".toList, "ok\n".toList)
  else ("HTTP/1.1 404 Not Found".toList, "not found\n".toList)

theorem length_three : "Content-Length: 3".toList = lengthName ++ ' ' :: digits "ok\n".toList.length := by
  have hdigits : digits 3 = ['3'] := by decide
  simp [lengthName, hdigits]

theorem length_ten :
    "Content-Length: 10".toList = lengthName ++ ' ' :: digits "not found\n".toList.length := by
  have hdigits : digits 10 = ['1', '0'] := by decide
  simp [lengthName, hdigits]

theorem fits_response (m : Metrics) : (response ["HTTP/1.1 200 OK".toList,
    "Content-Type: text/plain; version=0.0.4; charset=utf-8".toList,
    lengthName ++ ' ' :: digits (render m.families).length, "Connection: close".toList] []).length +
      (render m.families).length < 6656 := by
  have hbody := m.length_render
  have hdigits : (digits (render m.families).length).length ≤ 4 :=
    length_digits_le (by decide) (hbody.trans (by decide))
  rw [length_response]
  simp [lengthName]
  omega

/-- Whatever the counters are and whatever is requested, the answer is one response whose body has the length
that it tells, and a scraper learns from it every counter under its name. -/
theorem metrics_served (m : Metrics) (req : Text) :
    readResponse (metricsHttp m req) = some (metricsAnswer m req) ∧
      scrape (render m.families) = m.families.map fun f => (f.name, f.value) := by
  refine ⟨?_, scrape_render m.families_printable⟩
  unfold metricsHttp metricsAnswer
  split
  · have hfits : prometheusFormat m 6144 = some (render m.families) := by
      unfold prometheusFormat
      rw [if_neg (by decide), if_neg (Nat.not_le.mpr m.length_render)]
    rw [hfits]
    dsimp only
    rw [if_pos (fits_response m), ← response_append]
    exact readResponse_response "HTTP/1.1 200 OK".toList
      ["Content-Type: text/plain; version=0.0.4; charset=utf-8".toList] ["Connection: close".toList]
      (by simp [pairOf]) (by simp) _
  · split
    · rw [length_three]
      exact readResponse_response "HTTP/1.1 200 OK".toList ["Content-Type: text/plain".toList]
        ["Connection: close".toList] (by simp [pairOf]) (by simp) _
    · rw [length_ten]
      exact readResponse_response "HTTP/1.1 404 Not Found".toList [] ["Connection: close".toList]
        (by simp [pairOf]) (by simp) _

/-! ### Runs -/

/-- The waits that were noted, and the depths of the request queues. -/
def MetricsCall.wait : MetricsCall → Option Nat
  | .noteBackendWaitNs ns => some ns.toNat
  | _ => none

def MetricsCall.depth : MetricsCall → Option Nat
  | .noteFeQDepth depth => some depth.toNat
  | _ => none

/-- The largest of some numbers. -/
def largest (ns : List Nat) : Nat := ns.foldr max 0

theorem le_largest {ns : List Nat} {n : Nat} (h : n ∈ ns) : n ≤ largest ns := by
  induction ns with
  | nil => cases h
  | cons k ns ih =>
      rcases List.mem_cons.mp h with rfl | h
      · exact Nat.le_max_left ..
      · exact (ih h).trans (Nat.le_max_right ..)

theorem largest_append (ns : List Nat) (n : Nat) : largest (ns ++ [n]) = max (largest ns) n := by
  unfold largest
  induction ns with
  | nil => exact (Nat.max_comm n 0)
  | cons k ns ih => rw [List.cons_append, List.foldr_cons, List.foldr_cons, ih, Nat.max_assoc]

theorem sum_le_largest (ns : List Nat) : ns.sum ≤ ns.length * largest ns := by
  have h := List.sum_le_card_nsmul ns (largest ns) fun n hn => le_largest hn
  rwa [smul_eq_mul] at h

/-- The metrics tell of the calls. -/
structure Metrics.Tells (m : Metrics) (calls : List MetricsCall) : Prop where
  total : m.backendWaitNsTotal.toNat = (calls.filterMap MetricsCall.wait).sum % 2 ^ 64
  samples : m.backendWaitSamples.toNat = (calls.filterMap MetricsCall.wait).length % 2 ^ 64
  longest : m.backendWaitNsMax.toNat = largest (calls.filterMap MetricsCall.wait)
  deepest : m.feQueueHighWater.toNat = largest (calls.filterMap MetricsCall.depth)

/-- A maximum that is replaced by what exceeds it. -/
theorem toNat_raised {a b : UInt64} {ns : List Nat} (h : a.toNat = largest ns) :
    (if a < b then b else a).toNat = largest (ns ++ [b.toNat]) := by
  rw [largest_append, ← h]
  split
  · rename_i hlt
    exact (Nat.max_eq_right (UInt64.lt_iff_toNat_lt.mp hlt).le).symm
  · rename_i hlt
    exact (Nat.max_eq_left (Nat.le_of_not_lt fun hgt => hlt (UInt64.lt_iff_toNat_lt.mpr hgt))).symm

theorem Metrics.Tells.next {m : Metrics} {calls : List MetricsCall} (h : m.Tells calls)
    (call : MetricsCall) : (m.apply call).Tells (calls ++ [call]) := by
  obtain ⟨htotal, hsamples, hlongest, hdeepest⟩ := h
  -- a call that notes neither a wait nor a depth changes none of the four
  have hother : ∀ m' : Metrics, call.wait = none → call.depth = none →
      m'.backendWaitNsTotal = m.backendWaitNsTotal → m'.backendWaitSamples = m.backendWaitSamples →
      m'.backendWaitNsMax = m.backendWaitNsMax → m'.feQueueHighWater = m.feQueueHighWater →
      m'.Tells (calls ++ [call]) := by
    intro m' hwait hdepth h₁ h₂ h₃ h₄
    have hwaits : (calls ++ [call]).filterMap MetricsCall.wait = calls.filterMap MetricsCall.wait := by
      rw [List.filterMap_append, List.filterMap_cons_none hwait, List.filterMap_nil, List.append_nil]
    have hdepths : (calls ++ [call]).filterMap MetricsCall.depth = calls.filterMap MetricsCall.depth := by
      rw [List.filterMap_append, List.filterMap_cons_none hdepth, List.filterMap_nil, List.append_nil]
    exact ⟨by rw [h₁, hwaits, htotal], by rw [h₂, hwaits, hsamples], by rw [h₃, hwaits, hlongest],
      by rw [h₄, hdepths, hdeepest]⟩
  cases call with
  | noteBackendWaitNs ns =>
      have hwaits : (calls ++ [MetricsCall.noteBackendWaitNs ns]).filterMap MetricsCall.wait =
          calls.filterMap MetricsCall.wait ++ [ns.toNat] := List.filterMap_append ..
      have hdepths : (calls ++ [MetricsCall.noteBackendWaitNs ns]).filterMap MetricsCall.depth =
          calls.filterMap MetricsCall.depth :=
        (List.filterMap_append ..).trans (List.append_nil _)
      have htold : m.apply (.noteBackendWaitNs ns) = { m with
          backendWaitNsTotal := m.backendWaitNsTotal + ns
          backendWaitSamples := m.backendWaitSamples + 1
          backendWaitNsMax := if m.backendWaitNsMax < ns then ns else m.backendWaitNsMax } := by
        unfold Metrics.apply
        dsimp only
        split <;> rfl
      rw [htold]
      refine ⟨?_, ?_, ?_, ?_⟩
      · rw [hwaits, List.sum_append, List.sum_singleton, UInt64.toNat_add, htotal, Nat.mod_add_mod]
      · rw [hwaits, List.length_append, List.length_singleton, UInt64.toNat_add, hsamples]
        exact Nat.mod_add_mod ..
      · rw [hwaits]
        exact toNat_raised hlongest
      · rw [hdepths]
        exact hdeepest
  | noteFeQDepth depth =>
      have hwaits : (calls ++ [MetricsCall.noteFeQDepth depth]).filterMap MetricsCall.wait =
          calls.filterMap MetricsCall.wait := (List.filterMap_append ..).trans (List.append_nil _)
      have hdepths : (calls ++ [MetricsCall.noteFeQDepth depth]).filterMap MetricsCall.depth =
          calls.filterMap MetricsCall.depth ++ [depth.toNat] := List.filterMap_append ..
      have htold : m.apply (.noteFeQDepth depth) = { m with
          feQueueHighWater := if m.feQueueHighWater < depth then depth else m.feQueueHighWater } := by
        unfold Metrics.apply
        dsimp only
        split <;> rfl
      rw [htold]
      refine ⟨?_, ?_, ?_, ?_⟩
      · rw [hwaits]
        exact htotal
      · rw [hwaits]
        exact hsamples
      · rw [hwaits]
        exact hlongest
      · rw [hdepths]
        exact toNat_raised hdeepest
  | _ => exact hother _ rfl rfl rfl rfl rfl rfl

theorem metrics_tell (calls : List MetricsCall) : (Runs.run Metrics.apply .zero calls).Tells calls := by
  induction calls using List.reverseRecOn with
  | nil => exact ⟨rfl, rfl, rfl, rfl⟩
  | append_singleton calls call ih =>
      rw [Runs.run_append]
      exact ih.next call

/-- After any calls, as long as the waits together fit the counter, the average that is told is the true one,
it is at most the maximum that is told, and both maxima are those of what was noted. -/
theorem waits_told {calls : List MetricsCall} (hsum : (calls.filterMap MetricsCall.wait).sum < 2 ^ 64)
    (hlength : (calls.filterMap MetricsCall.wait).length < 2 ^ 64) :
    let m := Runs.run Metrics.apply .zero calls
    let waits := calls.filterMap MetricsCall.wait
    m.avgUs.toNat = waits.sum / waits.length / 1000 ∧ m.avgUs ≤ m.maxUs ∧
      m.maxUs.toNat = largest waits / 1000 ∧
      m.feQueueHighWater.toNat = largest (calls.filterMap MetricsCall.depth) := by
  obtain ⟨htotal, hsamples, hlongest, hdeepest⟩ := metrics_tell calls
  generalize Runs.run Metrics.apply .zero calls = m at htotal hsamples hlongest hdeepest
  rw [Nat.mod_eq_of_lt hsum] at htotal
  rw [Nat.mod_eq_of_lt hlength] at hsamples
  have hbound := sum_le_largest (calls.filterMap MetricsCall.wait)
  generalize calls.filterMap MetricsCall.wait = waits at htotal hsamples hlongest hbound
  have hmax : m.maxUs.toNat = largest waits / 1000 := by
    rw [Metrics.maxUs, UInt64.toNat_div, hlongest]
    rfl
  have havg : m.avgUs.toNat = waits.sum / waits.length / 1000 := by
    unfold Metrics.avgUs
    split
    · rw [UInt64.toNat_div, UInt64.toNat_div, htotal, hsamples]
      rfl
    · rename_i hnone
      have hzero : waits.length = 0 := by
        rw [← hsamples]
        exact Nat.eq_zero_of_not_pos fun hpos => hnone (UInt64.lt_iff_toNat_lt.mpr hpos)
      rw [hzero, Nat.div_zero, Nat.zero_div]
      rfl
  refine ⟨havg, ?_, hmax, hdeepest⟩
  rw [UInt64.le_iff_toNat_le, havg, hmax]
  exact Nat.div_le_div_right (Nat.div_le_of_le_mul hbound)

theorem waits_told_twice :
    let m := Runs.run Metrics.apply .zero [.noteBackendWaitNs 5000, .noteFeQDepth 3, .noteBackendWaitNs 9000]
    m.avgUs ≤ m.maxUs ∧ m.feQueueHighWater = 3 :=
  ⟨(waits_told (by decide) (by decide)).2.1, by decide⟩

import Sismo.Lib.Machine
import Sismo.Samples.StreamDecodes

namespace Sismo.Samples.CaptureLoop

/-! The worker of the Linux capture beside the kernel, which fills the BPF
ring, and the tracing thread, whose callbacks store the flags it reads. -/

/-- A slot of the ring in the order of reservation: not yet submitted, of no
known type or too short, or with a record. -/
inductive Slot where
  | busy
  | ignored
  | ready (record : Record)

def Slot.isBusy : Slot → Bool
  | .busy => true
  | _ => false

def Slot.submitted : Slot → Option (Option Record)
  | .busy => none
  | .ignored => some none
  | .ready record => some (some record)

structure Entry where
  record : Record
  host : HostView
  dataRegionLabel : Nat → Bytes
  active : Bool

/-- A flush or a stop to acknowledge.  How many slots could be read when it
came, and whether that was before `shutdown`, is history. -/
structure Ack where
  handle : Nat
  readable : Nat
  early : Bool
  deriving DecidableEq

/-- The flushes, or the stops, that came: all of them, those stored over by a
later one before the worker took them, and those acknowledged. -/
structure Requests where
  asked : List Ack := []
  replaced : List Ack := []
  answered : List Ack := []

namespace Requests

variable (requests : Requests)

/-- A request is stored where `before` is still to be taken. -/
def ask (before : Option Ack) (ack : Ack) : Requests :=
  { requests with
    asked := requests.asked ++ [ack]
    replaced := requests.replaced ++ before.toList }

def answer (ack : Ack) : Requests :=
  { requests with answered := requests.answered ++ [ack] }

end Requests

/-- Why the ring is consumed. -/
inductive Turn where
  | poll
  | round (last : Bool)
  | flush (ack : Ack) (last : Bool)
  | stop (ack : Ack) (last : Bool)

/-- `last`: the loop is over. -/
inductive Place where
  | checking
  | polling
  | consuming (turn : Turn)
  | opened (turn : Turn) (record : Record)
  | flushSwap (last : Bool)
  | flushing (ack : Ack) (last : Bool)
  | flushed (ack : Ack) (last : Bool)
  | stopSwap (last : Bool)
  | stopping (ack : Ack) (last : Bool)
  | deactivating (ack : Ack) (last : Bool)
  | stopped (ack : Ack) (last : Bool)
  | exited

inductive Starting where
  | idle | needed | offcpuNeeded
  deriving DecidableEq, Repr

/-- `begun`, `activeSince`, `exitReadable`, `log`, `flushes` and `stops` are
history: whether a session has ever started, the slot the running one starts
at, what could be read when `shutdown` came, what was made of the slots
consumed, and what became of the requests. -/
structure State where
  slots : List Slot := []
  consumed : Nat := 0
  capture : Capture := {}
  offcpuCommitted : Nat := 0
  flushReq : Option Ack := none
  stopReq : Option Ack := none
  exitRequested : Bool := false
  starting : Starting := .idle
  place : Place := .checking
  begun : Bool := false
  activeSince : Option Nat := none
  exitReadable : Nat := 0
  log : List (Option Entry) := []
  flushes : Requests := {}
  stops : Requests := {}

namespace State

variable (s : State)

def readable : Nat := s.slots.findIdx Slot.isBusy

def request (handle : Nat) : Ack := ⟨handle, s.readable, !s.exitRequested⟩

def go (place : Place) : State := { s with place := place }

def advance (entry : Option Entry) (turn : Turn) : State :=
  { s with
    consumed := s.consumed + 1
    log := s.log ++ [entry]
    place := .consuming turn }

end State

/-- `on_start`, a store at a time. -/
def onStart (s : State) : State :=
  match s.starting with
  | .idle =>
      { s with
        capture := { s.capture with needDefaults := true }
        starting := .needed }
  | .needed =>
      { s with
        capture := { s.capture with offcpuNeedDefaults := true }
        starting := .offcpuNeeded }
  | .offcpuNeeded =>
      { s with
        capture := { s.capture with active := true }
        starting := .idle
        begun := true
        activeSince :=
          if s.capture.active then s.activeSince else some s.consumed }

def deactivate (s : State) : State :=
  { s with
    capture := { s.capture with active := false }
    activeSince := none }

def onStop (s : State) (stopper : Nat) : State :=
  if stopper = 0 then deactivate s
  else
    { s with
      stopReq := some (s.request stopper)
      stops := s.stops.ask s.stopReq (s.request stopper) }

def onFlush (s : State) (flusher : Nat) : State :=
  if flusher = 0 then s
  else
    { s with
      flushReq := some (s.request flusher)
      flushes := s.flushes.ask s.flushReq (s.request flusher) }

def shutdown (s : State) : State :=
  { s with
    exitRequested := true
    exitReadable := if s.exitRequested then s.exitReadable else s.readable }

variable (config : CaptureConfig)

/-- `handle` of a record up to the load of `active`: a definition is learnt, a
sample is dropped or goes on. -/
def begin (s : State) (turn : Turn) (host : HostView)
    (dataRegionLabel : Nat → Bytes) (record : Record) : Option State :=
  let entry : Entry := ⟨record, host, dataRegionLabel, s.capture.active⟩
  match record with
  | .file _ _ | .pyframe _ _ => do
      let capture ← handle config host dataRegionLabel s.capture record
      some ({ s with capture := capture }.advance (some entry) turn)
  | _ =>
      if s.capture.active then some (s.go (.opened turn record))
      else some (s.advance (some entry) turn)

/-- The rest of `handle`, with `active` seen set; a panic is the worker's last
step. -/
def finish (s : State) (turn : Turn) (host : HostView)
    (dataRegionLabel : Nat → Bytes) (record : Record) : Option State := do
  let capture ← handle config host dataRegionLabel
    { s.capture with active := true } record
  some ({ s with capture := { capture with active := s.capture.active }
    }.advance (some ⟨record, host, dataRegionLabel, true⟩) turn)

/-- Where the worker goes on when nothing more can be read. -/
def afterTurn : Turn → Place
  | .poll => .consuming (.round false)
  | .round last => .flushSwap last
  | .flush ack last => .flushing ack last
  | .stop ack last => .stopping ack last

def afterAcks (last : Bool) : Place :=
  if last then .exited else .checking

/-- `worker_entry` and `service_acks`; `woken`: the poll finds the ring
ready. -/
def work (s : State) (woken : Bool) (host : HostView)
    (dataRegionLabel : Nat → Bytes) : Option State :=
  match s.place with
  | .checking =>
      if s.exitRequested then some (s.go (.consuming (.round true)))
      else some (s.go .polling)
  | .polling =>
      if woken then some (s.go (.consuming .poll))
      else some (s.go (.consuming (.round false)))
  | .consuming turn =>
      match s.slots[s.consumed]? with
      | some .ignored => some (s.advance none turn)
      | some (.ready record) => begin config s turn host dataRegionLabel record
      | _ => some (s.go (afterTurn turn))
  | .opened turn record => finish config s turn host dataRegionLabel record
  | .flushSwap last =>
      match s.flushReq with
      | none => some (s.go (.stopSwap last))
      | some ack =>
          some { s with
            flushReq := none
            place := .consuming (.flush ack last) }
  | .flushing ack last =>
      some { s with
        offcpuCommitted := s.capture.offcpu.length
        place := .flushed ack last }
  | .flushed ack last =>
      some { s with
        flushes := s.flushes.answer ack
        place := .stopSwap last }
  | .stopSwap last =>
      match s.stopReq with
      | none => some (s.go (afterAcks last))
      | some ack =>
          some { s with
            stopReq := none
            place := .consuming (.stop ack last) }
  | .stopping ack last =>
      some { s with
        offcpuCommitted := s.capture.offcpu.length
        place := .deactivating ack last }
  | .deactivating ack last => some ((deactivate s).go (.stopped ack last))
  | .stopped ack last =>
      some { s with
        stops := s.stops.answer ack
        place := afterAcks last }
  | .exited => none

inductive Action where
  | reserve
  | submit (index : Nat) (record : Option Record)
  | start
  | stop (stopper : Nat)
  | flush (flusher : Nat)
  | exit
  | worker (woken : Bool) (host : HostView) (dataRegionLabel : Nat → Bytes)

def Slot.of : Option Record → Slot
  | none => .ignored
  | some record => .ready record

/-- Callbacks come on one thread, so none comes while `on_start` runs. -/
def step (s : State) : Action → Option State
  | .reserve => some { s with slots := s.slots ++ [.busy] }
  | .submit index record =>
      match s.slots[index]? with
      | some .busy =>
          some { s with slots := s.slots.set index (.of record) }
      | _ => none
  | .start => some (onStart s)
  | .stop stopper =>
      if s.starting = .idle then some (onStop s stopper) else none
  | .flush flusher =>
      if s.starting = .idle then some (onFlush s flusher) else none
  | .exit => some (shutdown s)
  | .worker woken host dataRegionLabel =>
      work config s woken host dataRegionLabel

def Reachable (s : State) : Prop :=
  Machine.Reachable (step config) {} s

/-! ### What a step of the worker does -/

def Definition : Record → Prop
  | .file _ _ => True
  | .pyframe _ _ => True
  | _ => False

/-- Steps that change the place alone. -/
inductive Moves (s : State) : Place → Place → Prop
  | leave (exit : s.exitRequested = true) :
      Moves s .checking (.consuming (.round true))
  | stay : Moves s .checking .polling
  | woken : Moves s .polling (.consuming .poll)
  | timeout : Moves s .polling (.consuming (.round false))
  | stuck (turn : Turn)
      (stuck : ∀ slot, s.slots[s.consumed]? = some slot → slot.isBusy = true) :
      Moves s (.consuming turn) (afterTurn turn)
  | noFlush (last : Bool) (none : s.flushReq = none) :
      Moves s (.flushSwap last) (.stopSwap last)
  | noStop (last : Bool) (none : s.stopReq = none) :
      Moves s (.stopSwap last) (afterAcks last)

theorem afterAcks_away (last : Bool) (turn : Turn) (record : Record) :
    afterAcks last ≠ .opened turn record := by
  cases last <;> simp [afterAcks]

theorem Moves.away {s : State} {place next : Place}
    (moves : Moves s place next) (turn : Turn) (record : Record) :
    next ≠ .opened turn record := by
  cases moves with
  | stuck turn => cases turn <;> simp [afterTurn]
  | noStop last => exact afterAcks_away last turn record
  | _ => simp

inductive Worked (s : State) : State → Prop
  | moved {next : Place} (moves : Moves s s.place next) : Worked s (s.go next)
  | flush {ack : Ack} {last : Bool} (place : s.place = .flushSwap last)
      (request : s.flushReq = some ack) :
      Worked s { s with
        flushReq := none
        place := .consuming (.flush ack last) }
  | stop {ack : Ack} {last : Bool} (place : s.place = .stopSwap last)
      (request : s.stopReq = some ack) :
      Worked s { s with
        stopReq := none
        place := .consuming (.stop ack last) }
  | commitFlush {ack : Ack} {last : Bool} (place : s.place = .flushing ack last) :
      Worked s { s with
        offcpuCommitted := s.capture.offcpu.length
        place := .flushed ack last }
  | commitStop {ack : Ack} {last : Bool} (place : s.place = .stopping ack last) :
      Worked s { s with
        offcpuCommitted := s.capture.offcpu.length
        place := .deactivating ack last }
  | flushed {ack : Ack} {last : Bool} (place : s.place = .flushed ack last) :
      Worked s { s with
        flushes := s.flushes.answer ack
        place := .stopSwap last }
  | deactivated {ack : Ack} {last : Bool}
      (place : s.place = .deactivating ack last) :
      Worked s ((deactivate s).go (.stopped ack last))
  | stopped {ack : Ack} {last : Bool} (place : s.place = .stopped ack last) :
      Worked s { s with
        stops := s.stops.answer ack
        place := afterAcks last }
  | ignored {turn : Turn} (place : s.place = .consuming turn)
      (found : s.slots[s.consumed]? = some .ignored) :
      Worked s (s.advance none turn)
  | learnt {turn : Turn} {record : Record} {host : HostView}
      {dataRegionLabel : Nat → Bytes} {capture : Capture}
      (place : s.place = .consuming turn)
      (found : s.slots[s.consumed]? = some (.ready record))
      (definition : Definition record)
      (handled : handle config host dataRegionLabel s.capture record =
        some capture) :
      Worked s (State.advance { s with capture := capture }
        (some ⟨record, host, dataRegionLabel, s.capture.active⟩) turn)
  | dropped {turn : Turn} {record : Record} {host : HostView}
      {dataRegionLabel : Nat → Bytes} (place : s.place = .consuming turn)
      (found : s.slots[s.consumed]? = some (.ready record))
      (sample : ¬Definition record) (inactive : s.capture.active = false) :
      Worked s
        (s.advance (some ⟨record, host, dataRegionLabel, false⟩) turn)
  | opened {turn : Turn} {record : Record} (place : s.place = .consuming turn)
      (found : s.slots[s.consumed]? = some (.ready record))
      (active : s.capture.active = true) :
      Worked s (s.go (.opened turn record))
  | finished {turn : Turn} {record : Record} {host : HostView}
      {dataRegionLabel : Nat → Bytes} {capture : Capture}
      (place : s.place = .opened turn record)
      (handled : handle config host dataRegionLabel
        { s.capture with active := true } record = some capture) :
      Worked s (State.advance
        { s with capture := { capture with active := s.capture.active } }
        (some ⟨record, host, dataRegionLabel, true⟩) turn)

variable {config}

theorem Worked.begin {s next : State} {turn : Turn} {record : Record}
    {host : HostView} {dataRegionLabel : Nat → Bytes}
    (place : s.place = .consuming turn)
    (found : s.slots[s.consumed]? = some (.ready record))
    (begun : begin config s turn host dataRegionLabel record = some next) :
    Worked config s next := by
  have sample : ¬Definition record →
      (if s.capture.active then some (s.go (.opened turn record))
        else some (s.advance
          (some ⟨record, host, dataRegionLabel, s.capture.active⟩) turn)) =
        some next → Worked config s next := by
    intro sample begun
    split at begun
    · next active =>
        cases begun
        exact .opened place found active
    · next inactive =>
        cases begun
        have off : s.capture.active = false := by simpa using inactive
        rw [off]
        exact .dropped place found sample off
  unfold CaptureLoop.begin at begun
  cases record with
  | file id name =>
      cases begun
      exact .learnt place found trivial rfl
  | pyframe id name =>
      cases begun
      exact .learnt place found trivial rfl
  | offcpu rec => exact sample id begun
  | sample rec => exact sample id begun
  | sampleUnwind urec => exact sample id begun

theorem worked {s next : State} {woken : Bool} {host : HostView}
    {dataRegionLabel : Nat → Bytes}
    (stepped : work config s woken host dataRegionLabel = some next) :
    Worked config s next := by
  have moved : ∀ {from_ place}, s.place = from_ → Moves s from_ place →
      Worked config s (s.go place) := fun same moves =>
    .moved (by rwa [same])
  unfold work at stepped
  cases place : s.place with
  | checking =>
      simp only [place] at stepped
      split at stepped <;> cases stepped
      · next exit => exact moved place (.leave exit)
      · exact moved place .stay
  | polling =>
      simp only [place] at stepped
      split at stepped <;> cases stepped
      · exact moved place .woken
      · exact moved place .timeout
  | consuming turn =>
      simp only [place] at stepped
      split at stepped
      · next found =>
          cases stepped
          exact .ignored place found
      · next record found => exact .begin place found stepped
      · next notIgnored notReady =>
          cases stepped
          refine moved place (.stuck turn fun slot found => ?_)
          cases slot with
          | busy => rfl
          | ignored => exact absurd found notIgnored
          | ready record => exact absurd found (notReady record)
  | opened turn record =>
      simp only [place] at stepped
      obtain ⟨capture, handled, same⟩ := Option.bind_eq_some_iff.mp stepped
      cases same
      exact .finished place handled
  | flushSwap last =>
      simp only [place] at stepped
      split at stepped
      · next none =>
          cases stepped
          exact moved place (.noFlush last none)
      · next request =>
          cases stepped
          exact .flush place request
  | flushing ack last =>
      simp only [place] at stepped
      cases stepped
      exact .commitFlush place
  | flushed ack last =>
      simp only [place] at stepped
      cases stepped
      exact .flushed place
  | stopSwap last =>
      simp only [place] at stepped
      split at stepped
      · next none =>
          cases stepped
          exact moved place (.noStop last none)
      · next request =>
          cases stepped
          exact .stop place request
  | stopping ack last =>
      simp only [place] at stepped
      cases stepped
      exact .commitStop place
  | deactivating ack last =>
      simp only [place] at stepped
      cases stepped
      exact .deactivated place
  | stopped ack last =>
      simp only [place] at stepped
      cases stepped
      exact .stopped place
  | exited =>
      simp only [place] at stepped
      cases stepped

/-! ### What can be read -/

def Readable (slots : List Slot) (n : Nat) : Prop :=
  ∀ i < n, ∃ slot, slots[i]? = some slot ∧ slot.isBusy = false

theorem readable_findIdx (slots : List Slot) :
    Readable slots (slots.findIdx Slot.isBusy) := by
  intro i below
  have inside : i < slots.length :=
    Nat.lt_of_lt_of_le below List.findIdx_le_length
  exact ⟨slots[i], List.getElem?_eq_getElem inside,
    List.not_of_lt_findIdx below⟩

variable {slots : List Slot} {n : Nat}

theorem Readable.reserve (ok : Readable slots n) :
    Readable (slots ++ [.busy]) n := by
  intro i below
  obtain ⟨slot, found, submitted⟩ := ok i below
  have inside := (List.getElem?_eq_some_iff.mp found).1
  exact ⟨slot, by rw [List.getElem?_append_left inside, found], submitted⟩

theorem Readable.submit (ok : Readable slots n) {index : Nat}
    (busy : slots[index]? = some .busy) (record : Option Record) :
    Readable (slots.set index (.of record)) n := by
  intro i below
  obtain ⟨slot, found, submitted⟩ := ok i below
  have apart : index ≠ i := by
    rintro rfl
    cases busy.symm.trans found
    cases submitted
  exact ⟨slot, by rw [List.getElem?_set_ne apart, found], submitted⟩

/-- No more than the slots before one that cannot be read. -/
theorem Readable.le (ok : Readable slots n) {i : Nat}
    (stuck : ∀ slot, slots[i]? = some slot → slot.isBusy = true) : n ≤ i := by
  by_contra above
  obtain ⟨slot, found, submitted⟩ := ok i (Nat.lt_of_not_le above)
  rw [stuck slot found] at submitted
  cases submitted

/-! ### What has been consumed -/

structure Consumes (s : State) : Prop where
  length : s.log.length = s.consumed
  handled : (s.slots.take s.consumed).map Slot.submitted =
    s.log.map fun entry => some (entry.map Entry.record)
  opened : ∀ turn record, s.place = .opened turn record →
    s.slots[s.consumed]? = some (.ready record)

namespace Consumes

variable {s : State}

theorem le_length (consumes : Consumes s) : s.consumed ≤ s.slots.length := by
  have same := congrArg List.length consumes.handled
  rw [List.length_map, List.length_map, List.length_take,
    consumes.length] at same
  omega

theorem le_busy (consumes : Consumes s) {index : Nat}
    (busy : s.slots[index]? = some .busy) : s.consumed ≤ index := by
  by_contra before
  have at_ := congrArg (·[index]?) consumes.handled
  simp only [List.getElem?_map, List.getElem?_take_of_lt (Nat.lt_of_not_le before),
    busy, Option.map_some, Slot.submitted] at at_
  cases found : s.log[index]? with
  | none => simp [found] at at_
  | some entry => simp [found] at at_

theorem reserve (consumes : Consumes s) :
    Consumes { s with slots := s.slots ++ [.busy] } where
  length := consumes.length
  handled := by
    rw [List.take_append_of_le_length consumes.le_length]
    exact consumes.handled
  opened := by
    intro turn record place
    have found := consumes.opened turn record place
    have inside := (List.getElem?_eq_some_iff.mp found).1
    rw [List.getElem?_append_left inside, found]

theorem submit (consumes : Consumes s) {index : Nat}
    (busy : s.slots[index]? = some .busy) (record : Option Record) :
    Consumes { s with slots := s.slots.set index (.of record) } where
  length := consumes.length
  handled := by
    rw [List.take_set_of_le (consumes.le_busy busy)]
    exact consumes.handled
  opened := by
    intro turn other place
    have found := consumes.opened turn other place
    have apart : index ≠ s.consumed := by
      rintro rfl
      cases busy.symm.trans found
    rw [List.getElem?_set_ne apart, found]

/-- A change of the flags and the requests, and of the place to one that holds
no record. -/
theorem frame {next : State} (consumes : Consumes s)
    (slots : next.slots = s.slots) (consumed : next.consumed = s.consumed)
    (log : next.log = s.log)
    (opened : ∀ turn record, next.place = .opened turn record →
      s.slots[s.consumed]? = some (.ready record)) : Consumes next where
  length := by rw [log, consumed, consumes.length]
  handled := by rw [slots, consumed, log, consumes.handled]
  opened := by rwa [slots, consumed]

theorem advance (consumes : Consumes s) (next : State) {slot : Slot}
    (found : s.slots[s.consumed]? = some slot) (entry : Option Entry)
    (submitted : slot.submitted = some (entry.map Entry.record))
    (slots : next.slots = s.slots) (consumed : next.consumed = s.consumed)
    (log : next.log = s.log) (turn : Turn) :
    Consumes (next.advance entry turn) where
  length := by simp [State.advance, log, consumed, consumes.length]
  handled := by
    simp only [State.advance, slots, consumed, log, List.take_add_one, found,
      Option.toList_some, List.map_append, consumes.handled, List.map_cons,
      List.map_nil, submitted]
  opened := by
    intro _ _ place
    cases place

theorem worked (consumes : Consumes s) {next : State}
    (worked : Worked config s next) : Consumes next := by
  cases worked with
  | moved moves =>
      exact consumes.frame rfl rfl rfl fun turn record opened =>
        absurd opened (moves.away turn record)
  | opened place found active =>
      refine consumes.frame rfl rfl rfl fun turn record opened => ?_
      cases opened
      exact found
  | ignored place found =>
      exact consumes.advance s found none rfl rfl rfl rfl _
  | learnt place found definition handled =>
      apply consumes.advance _ found
      · rfl
      · rfl
      · rfl
      · rfl
  | dropped place found sample inactive =>
      apply consumes.advance _ found
      · rfl
      · rfl
      · rfl
      · rfl
  | finished place handled =>
      apply consumes.advance _ (consumes.opened _ _ place)
      · rfl
      · rfl
      · rfl
      · rfl
  | stopped place =>
      exact consumes.frame rfl rfl rfl fun turn record opened =>
        absurd opened (afterAcks_away _ turn record)
  | _ => exact consumes.frame rfl rfl rfl fun turn record opened => by cases opened

theorem step (consumes : Consumes s) {action : Action} {next : State}
    (stepped : step config s action = some next) : Consumes next := by
  have flags : ∀ {next : State}, next.slots = s.slots →
      next.consumed = s.consumed → next.log = s.log → next.place = s.place →
      Consumes next := fun slots consumed log place =>
    consumes.frame slots consumed log fun turn record opened =>
      consumes.opened turn record (place ▸ opened)
  cases action with
  | reserve =>
      cases stepped
      exact consumes.reserve
  | submit index record =>
      simp only [CaptureLoop.step] at stepped
      split at stepped
      · next busy =>
          cases stepped
          exact consumes.submit busy record
      · cases stepped
  | start =>
      cases stepped
      unfold onStart
      split
      · exact flags rfl rfl rfl rfl
      · exact flags rfl rfl rfl rfl
      · exact flags rfl rfl rfl rfl
  | stop stopper =>
      obtain ⟨-, same⟩ := Option.ite_none_right_eq_some.mp stepped
      cases same
      unfold onStop
      split
      · exact flags rfl rfl rfl rfl
      · exact flags rfl rfl rfl rfl
  | flush flusher =>
      obtain ⟨-, same⟩ := Option.ite_none_right_eq_some.mp stepped
      cases same
      unfold onFlush
      split
      · exact flags rfl rfl rfl rfl
      · exact flags rfl rfl rfl rfl
  | exit =>
      cases stepped
      exact flags rfl rfl rfl rfl
  | worker woken host dataRegionLabel =>
      exact consumes.worked (CaptureLoop.worked stepped)

theorem empty : Consumes {} where
  length := rfl
  handled := rfl
  opened := fun _ _ place => by cases place

theorem reachable (reached : Reachable config s) : Consumes s :=
  Machine.Reachable.invariant (fun _ _ _ consumes stepped =>
    consumes.step stepped) reached .empty

end Consumes

/-! ### What an acknowledgement covers -/

def Turn.held : Turn → Option Ack
  | .flush ack _ => some ack
  | .stop ack _ => some ack
  | _ => none

/-- The acknowledgement the ring is consumed for. -/
def Place.held : Place → Option Ack
  | .consuming turn => turn.held
  | .opened turn _ => turn.held
  | _ => none

/-- The acknowledgement due once the ring has been consumed for it. -/
def Place.given : Place → Option Ack
  | .flushing ack _ => some ack
  | .flushed ack _ => some ack
  | .stopping ack _ => some ack
  | .deactivating ack _ => some ack
  | .stopped ack _ => some ack
  | _ => none

structure Covers (s : State) : Prop where
  flush : ∀ ack, s.flushReq = some ack → Readable s.slots ack.readable
  stop : ∀ ack, s.stopReq = some ack → Readable s.slots ack.readable
  held : ∀ ack, s.place.held = some ack → Readable s.slots ack.readable
  given : ∀ ack, s.place.given = some ack → ack.readable ≤ s.consumed

theorem afterAcks_held (last : Bool) : (afterAcks last).held = none := by
  cases last <;> rfl

theorem afterAcks_given (last : Bool) : (afterAcks last).given = none := by
  cases last <;> rfl

theorem Moves.held {s : State} {place next : Place} (moves : Moves s place next)
    {ack : Ack} (holds : next.held = some ack) : False := by
  cases moves with
  | stuck turn => cases turn <;> cases holds
  | noStop last => cases (afterAcks_held last).symm.trans holds
  | _ => cases holds

/-- An acknowledgement falls due as nothing more can be read. -/
theorem Moves.given {s : State} {place next : Place} (moves : Moves s place next)
    {ack : Ack} (due : next.given = some ack) :
    place.held = some ack ∧
      ∀ slot, s.slots[s.consumed]? = some slot → slot.isBusy = true := by
  cases moves with
  | stuck turn stuck =>
      cases turn with
      | poll => cases due
      | round last => cases due
      | flush held last => exact ⟨due, stuck⟩
      | stop held last => exact ⟨due, stuck⟩
  | noStop last => cases (afterAcks_given last).symm.trans due
  | _ => cases due

namespace Covers

variable {s : State}

theorem readable (covers : Covers s) {next : State}
    (more : ∀ n, Readable s.slots n → Readable next.slots n)
    (flush : ∀ ack, next.flushReq = some ack → s.flushReq = some ack ∨
      Readable next.slots ack.readable)
    (stop : ∀ ack, next.stopReq = some ack → s.stopReq = some ack ∨
      Readable next.slots ack.readable)
    (place : next.place = s.place) (consumed : next.consumed = s.consumed) :
    Covers next where
  flush := fun ack pending =>
    (flush ack pending).elim (fun same => more _ (covers.flush ack same)) id
  stop := fun ack pending =>
    (stop ack pending).elim (fun same => more _ (covers.stop ack same)) id
  held := fun ack held => more _ (covers.held ack (place ▸ held))
  given := fun ack due => consumed ▸ covers.given ack (place ▸ due)

theorem advance (covers : Covers s) {turn : Turn}
    (held : s.place.held = turn.held) (next : State)
    (slots : next.slots = s.slots) (flushReq : next.flushReq = s.flushReq)
    (stopReq : next.stopReq = s.stopReq) (entry : Option Entry) :
    Covers (next.advance entry turn) where
  flush := fun ack pending => slots ▸ covers.flush ack (flushReq ▸ pending)
  stop := fun ack pending => slots ▸ covers.stop ack (stopReq ▸ pending)
  held := fun ack same => slots ▸ covers.held ack (held.trans same)
  given := fun ack due => by cases due

theorem worked (covers : Covers s) {next : State}
    (worked : Worked config s next) : Covers next := by
  cases worked with
  | moved moves =>
      exact { covers with
        held := fun ack held => (moves.held held).elim
        given := fun ack due =>
          (covers.held ack (moves.given due).1).le (moves.given due).2 }
  | flush place request =>
      exact {
        flush := fun ack none => by cases none
        stop := covers.stop
        held := fun ack held => covers.flush ack (request.trans held)
        given := fun ack due => by cases due }
  | stop place request =>
      exact {
        flush := covers.flush
        stop := fun ack none => by cases none
        held := fun ack held => covers.stop ack (request.trans held)
        given := fun ack due => by cases due }
  | commitFlush place =>
      exact { covers with
        held := fun ack held => by cases held
        given := fun ack due => covers.given ack (by rw [place]; exact due) }
  | commitStop place =>
      exact { covers with
        held := fun ack held => by cases held
        given := fun ack due => covers.given ack (by rw [place]; exact due) }
  | flushed place =>
      exact { covers with
        held := fun ack held => by cases held
        given := fun ack due => by cases due }
  | deactivated place =>
      exact {
        flush := covers.flush
        stop := covers.stop
        held := fun ack held => by cases held
        given := fun ack due => covers.given ack (by rw [place]; exact due) }
  | stopped place =>
      exact { covers with
        held := fun ack held => by cases (afterAcks_held _).symm.trans held
        given := fun ack due => by cases (afterAcks_given _).symm.trans due }
  | opened place found active =>
      exact { covers with
        held := fun ack held => covers.held ack (by rw [place]; exact held)
        given := fun ack due => by cases due }
  | ignored place found =>
      exact covers.advance (by rw [place]; rfl) _ rfl rfl rfl _
  | learnt place found definition handled =>
      apply covers.advance (by rw [place]; rfl)
      · rfl
      · rfl
      · rfl
  | dropped place found sample inactive =>
      exact covers.advance (by rw [place]; rfl) _ rfl rfl rfl _
  | finished place handled =>
      apply covers.advance (by rw [place]; rfl)
      · rfl
      · rfl
      · rfl

theorem step (covers : Covers s) {action : Action} {next : State}
    (stepped : step config s action = some next) : Covers next := by
  have flags : ∀ {next : State}, next.slots = s.slots →
      next.flushReq = s.flushReq → next.stopReq = s.stopReq →
      next.place = s.place → next.consumed = s.consumed → Covers next :=
    fun slots flushReq stopReq place consumed =>
      covers.readable (fun n ok => slots ▸ ok)
        (fun ack pending => .inl (flushReq ▸ pending))
        (fun ack pending => .inl (stopReq ▸ pending)) place consumed
  have now : ∀ {handle ack}, some (s.request handle) = some ack →
      Readable s.slots ack.readable := by
    intro handle ack same
    cases same
    exact readable_findIdx s.slots
  cases action with
  | reserve =>
      cases stepped
      exact covers.readable (fun n ok => ok.reserve) (fun ack => .inl)
        (fun ack => .inl) rfl rfl
  | submit index record =>
      simp only [CaptureLoop.step] at stepped
      split at stepped
      · next busy =>
          cases stepped
          exact covers.readable (fun n ok => ok.submit busy record)
            (fun ack => .inl) (fun ack => .inl) rfl rfl
      · cases stepped
  | start =>
      cases stepped
      unfold onStart
      split
      · exact flags rfl rfl rfl rfl rfl
      · exact flags rfl rfl rfl rfl rfl
      · exact flags rfl rfl rfl rfl rfl
  | stop stopper =>
      obtain ⟨-, same⟩ := Option.ite_none_right_eq_some.mp stepped
      cases same
      unfold onStop
      split
      · exact flags rfl rfl rfl rfl rfl
      · exact covers.readable (fun n ok => ok) (fun ack => .inl)
          (fun ack pending => .inr (now pending)) rfl rfl
  | flush flusher =>
      obtain ⟨-, same⟩ := Option.ite_none_right_eq_some.mp stepped
      cases same
      unfold onFlush
      split
      · exact flags rfl rfl rfl rfl rfl
      · exact covers.readable (fun n ok => ok)
          (fun ack pending => .inr (now pending)) (fun ack => .inl) rfl rfl
  | exit =>
      cases stepped
      exact flags rfl rfl rfl rfl rfl
  | worker woken host dataRegionLabel =>
      exact covers.worked (CaptureLoop.worked stepped)

theorem reachable (reached : Reachable config s) : Covers s :=
  Machine.Reachable.invariant (fun _ _ _ covers stepped =>
    covers.step stepped) reached
    { flush := fun _ none => by cases none
      stop := fun _ none => by cases none
      held := fun _ none => by cases none
      given := fun _ none => by cases none }

end Covers

end Sismo.Samples.CaptureLoop

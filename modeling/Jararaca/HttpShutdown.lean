import Mathlib.Data.List.Basic

/-!
# The shutdown state of HTTP servers

`HttpShutdownState` puts itself before the signal handlers that it finds, and steps aside at the
first signal. A process may create several servers, each on top of the one before; what the
handlers from before all of them get to see is the subject here.
-/
namespace HttpShutdown

inductive Signal where
  | sigint | sigterm
  deriving DecidableEq, Repr

/-- What a signal is given to; `native` is a handler that Python did not install. -/
inductive Handler where
  | native
  | previous
  | server (i : Nat)
  deriving DecidableEq, Repr

/-- `HttpShutdownState`; an old handler that is None is `native`. -/
structure ShutdownState where
  requested : Bool := false
  aevent : Bool := false
  old : Signal → Handler

/-- The handlers in force, the servers in the order they were created, and the signals that
handlers other than theirs got. -/
structure Process where
  handler : Signal → Handler := fun _ => .previous
  servers : List ShutdownState := []
  received : List Signal := []

def Process.setServer (p : Process) (i : Nat) (f : ShutdownState → ShutdownState) : Process :=
  { p with servers := p.servers.modify i f }

/-- The loop that puts back the old handlers, but those that are None. -/
def restore (old handler : Signal → Handler) : Signal → Handler := fun sig =>
  if old sig = .native then handler sig else old sig

/-- A signal is given to its handler. `handle_signal` of a server that was not asked before puts
back the old handlers and raises the signal again. -/
def raiseSignal : Nat → Process → Signal → Process
  | 0, p, _ => p
  | fuel + 1, p, s =>
    match p.handler s with
    | .server i =>
      match p.servers[i]? with
      | none => p
      | some server =>
        let p := p.setServer i fun server => { server with aevent := true }
        if server.requested then p
        else
          let p := p.setServer i fun server => { server with requested := true }
          raiseSignal fuel { p with handler := restore server.old p.handler } s
    | _ => { p with received := p.received ++ [s] }

/-- Each server passes a signal on once at most. -/
def deliver (p : Process) (s : Signal) : Process := raiseSignal (p.servers.length + 1) p s

/-- A server is created, a transaction of one asks for the shutdown, a signal comes in. -/
inductive Event where
  | create
  | request (i : Nat)
  | signal (s : Signal)
  deriving DecidableEq, Repr

def step (p : Process) : Event → Process
  | .create => { p with
      servers := p.servers ++ [{ old := p.handler }], handler := fun _ => .server p.servers.length }
  | .request i =>
    match p.servers[i]? with
    | none => p
    | some server =>
      if server.requested then p
      else deliver (p.setServer i fun server => { server with requested := true }) .sigint
  | .signal s => deliver p s

def run (p : Process) (events : List Event) : Process := events.foldl step p

/-- What gets through, from the servers that were neither asked nor signalled yet: every signal up
to the first request to one of these, and nothing after. -/
def passed : List Bool → List Event → List Signal
  | _, [] => []
  | fresh, .create :: events => passed (fresh ++ [true]) events
  | fresh, .signal s :: events => s :: passed (fresh.map fun _ => false) events
  | fresh, .request i :: events => if fresh[i]? = some true then [] else passed fresh events

/-! ## The way of a signal -/

variable {servers : List ShutdownState}

/-- From one handler to another through servers that were not asked yet, the latest first. -/
inductive Leads (servers : List ShutdownState) : Handler → List Nat → Handler → Prop where
  | here (h : Handler) : Leads servers h [] h
  | through {i : Nat} {server : ShutdownState} {next last : Handler} {l : List Nat}
      (hserver : servers[i]? = some server) (hrequested : server.requested = false)
      (hold : ∀ s, server.old s = next) (hnext : next ≠ .native) (hbelow : ∀ k ∈ l, k < i)
      (hrest : Leads servers next l last) : Leads servers (.server i) (i :: l) last

theorem Leads.lt {h last : Handler} {l : List Nat} (hl : Leads servers h l last) :
    ∀ k ∈ l, k < servers.length := by
  induction hl with
  | here h => exact fun k hk => absurd hk List.not_mem_nil
  | through hserver _ _ _ _ _ ih =>
    intro k hk
    obtain rfl | hk := List.mem_cons.mp hk
    · exact (List.getElem?_eq_some_iff.mp hserver).1
    · exact ih k hk

/-- The way is as it was where its servers are. -/
theorem Leads.congr {servers' : List ShutdownState} {h last : Handler} {l : List Nat}
    (hl : Leads servers h l last)
    (hsame : ∀ k ∈ l, servers'[k]? = servers[k]?) : Leads servers' h l last := by
  induction hl with
  | here h => exact .here h
  | through hserver hrequested hold hnext hbelow _ ih =>
    exact .through ((hsame _ List.mem_cons_self).trans hserver) hrequested hold hnext hbelow
      (ih fun k hk => hsame k (List.mem_cons_of_mem _ hk))

theorem Leads.length_le {h last : Handler} {l : List Nat} (hl : Leads servers h l last) :
    ∀ n, (∀ k ∈ l, k < n) → l.length ≤ n := by
  induction hl with
  | here h => exact fun n _ => Nat.zero_le n
  | @through i _ _ _ l _ _ _ _ hbelow _ ih =>
    intro n hn
    have hrest := ih i hbelow
    have hi := hn i List.mem_cons_self
    rw [List.length_cons]
    omega

/-- The servers of the list are asked, and their events set. -/
def asked (servers : List ShutdownState) (l : List Nat) : List ShutdownState :=
  servers.mapIdx fun i server =>
    if i ∈ l then { server with requested := true, aevent := true } else server

theorem asked_nil : asked servers [] = servers := by
  apply List.ext_getElem?
  intro k
  simp [asked]

theorem asked_cons (i : Nat) (l : List Nat) :
    asked (servers.modify i fun server => { server with requested := true, aevent := true }) l =
      asked servers (i :: l) := by
  apply List.ext_getElem?
  intro k
  simp only [asked, List.getElem?_mapIdx, List.getElem?_modify]
  by_cases hk : i = k
  · subst hk
    cases servers[i]? with
    | none => simp
    | some server => by_cases hl : i ∈ l <;> simp [hl]
  · have hne : ¬k = i := fun heq => hk heq.symm
    cases servers[k]? with
    | none => simp [hk]
    | some server => simp [hk, hne]

/-- A signal goes all the way: the servers on it are asked, and the handler at its end is in
force. -/
theorem raise_leads {p : Process} {h last : Handler} {l : List Nat}
    (hl : Leads p.servers h l last) (fuel : Nat) (hhandler : ∀ s, p.handler s = h) (s : Signal) :
    raiseSignal (l.length + fuel) p s =
      raiseSignal fuel { p with handler := fun _ => last, servers := asked p.servers l } s := by
  induction l generalizing p h with
  | nil =>
    cases hl
    have hsame : (fun _ => last) = p.handler := funext fun s => (hhandler s).symm
    rw [asked_nil, hsame, List.length_nil, Nat.zero_add]
  | cons i l ih =>
    obtain _ | @⟨_, server, next, _, _, hserver, hrequested, hold, hnext, hbelow, hrest⟩ := hl
    have hmodify : (p.setServer i fun server => { server with aevent := true }).setServer i
        (fun server => { server with requested := true }) = p.setServer i
          (fun server => { server with requested := true, aevent := true }) := by
      simp only [Process.setServer, List.modify_modify_eq]
      rfl
    have hrestore : restore server.old p.handler = fun _ => next := by
      funext sig
      simp [restore, hold, hnext]
    have hstep : raiseSignal ((i :: l).length + fuel) p s = raiseSignal (l.length + fuel)
        { p.setServer i (fun server => { server with requested := true, aevent := true }) with
          handler := fun _ => next } s := by
      rw [List.length_cons, Nat.add_right_comm, raiseSignal, hhandler s]
      simp only [hserver, hrequested, Bool.false_eq_true, if_false, hmodify]
      simp only [Process.setServer, hrestore]
    have hsame : ∀ k ∈ l, (p.servers.modify i fun server =>
        { server with requested := true, aevent := true })[k]? = p.servers[k]? :=
      fun k hk => List.getElem?_modify_ne _ _ (Nat.ne_of_gt (hbelow k hk))
    rw [hstep, ih (hrest.congr hsame) (fun _ => rfl)]
    simp only [Process.setServer, asked_cons]

theorem deliver_leads {p : Process} {h last : Handler} {l : List Nat}
    (hl : Leads p.servers h l last) (hhandler : ∀ s, p.handler s = h) (s : Signal) :
    ∃ fuel, deliver p s = raiseSignal (fuel + 1)
      { p with handler := fun _ => last, servers := asked p.servers l } s := by
  have hlength := hl.length_le p.servers.length hl.lt
  refine ⟨p.servers.length - l.length, ?_⟩
  have hfuel : p.servers.length + 1 = l.length + (p.servers.length - l.length + 1) := by omega
  rw [deliver, hfuel, raise_leads hl _ hhandler]

/-! ## While signals get through, and after -/

/-- Every server that was not asked is on the way of signals, which leads to the previous
handlers. -/
structure Opened (p : Process) (fresh : List Bool) : Prop where
  way : ∃ h l, (∀ s, p.handler s = h) ∧ Leads p.servers h l .previous ∧
    ∀ i server, p.servers[i]? = some server → server.requested = false → i ∈ l
  fresh : fresh = p.servers.map fun server => !server.requested

/-- The way of signals ends at a server that was asked. -/
def Stuck (p : Process) : Prop :=
  ∃ h l j server, (∀ s, p.handler s = h) ∧ Leads p.servers h l (.server j) ∧
  p.servers[j]? = some server ∧ server.requested = true

theorem asked_requested {l : List Nat} {j : Nat} {server : ShutdownState}
    (hserver : servers[j]? = some server)
    (h : j ∈ l ∨ server.requested = true) :
    ∃ server', (asked servers l)[j]? = some server' ∧ server'.requested = true := by
  refine ⟨_, by rw [asked, List.getElem?_mapIdx, hserver]; rfl, ?_⟩
  by_cases hj : j ∈ l
  · simp [hj]
  · simpa [hj] using h.resolve_left hj

/-- While the way is open a signal comes through, and asks every server on it. -/
theorem Opened.signal {p : Process} {fresh : List Bool} (h : Opened p fresh) (s : Signal) :
    Opened (deliver p s) (fresh.map fun _ => false) ∧
      (deliver p s).received = p.received ++ [s] := by
  obtain ⟨⟨top, l, hhandler, hl, hall⟩, hfresh⟩ := h
  obtain ⟨fuel, hdeliver⟩ := deliver_leads hl hhandler s
  rw [hdeliver, raiseSignal]
  refine ⟨⟨⟨.previous, [], fun _ => rfl, .here _, ?_⟩, ?_⟩, rfl⟩
  · intro i server' hserver' hrequested
    rw [asked, List.getElem?_mapIdx] at hserver'
    obtain ⟨server, hserver, rfl⟩ := Option.map_eq_some_iff.mp hserver'
    by_cases hi : i ∈ l
    · simp [hi] at hrequested
    · simp only [hi, if_false] at hrequested
      exact absurd (hall i server hserver hrequested) hi
  · rw [hfresh]
    apply List.ext_getElem?
    intro i
    simp only [asked, List.map_map, List.getElem?_map, List.getElem?_mapIdx]
    cases hserver : p.servers[i]? with
    | none => rfl
    | some server =>
      by_cases hi : i ∈ l
      · simp [hi]
      · have hrequested : server.requested = true := by
          by_contra hnot
          exact hi (hall i server hserver (by simpa using hnot))
        simp [hi, hrequested]

/-- A signal that ends at a server that was asked does not come through. -/
theorem Stuck.signal {p : Process} (h : Stuck p) (s : Signal) :
    Stuck (deliver p s) ∧ (deliver p s).received = p.received := by
  obtain ⟨top, l, j, server, hhandler, hl, hserver, hrequested⟩ := h
  obtain ⟨fuel, hdeliver⟩ := deliver_leads hl hhandler s
  obtain ⟨server', hserver', hrequested'⟩ := asked_requested (l := l) hserver (.inr hrequested)
  rw [hdeliver, raiseSignal]
  simp only [hserver', hrequested', if_true]
  refine ⟨⟨.server j, [], j, { server' with aevent := true }, fun _ => rfl, .here _, ?_,
    hrequested'⟩, rfl⟩
  simp [Process.setServer, hserver']

/-- A way on which a server is asked ends there. -/
theorem Leads.cut {h last : Handler} {l : List Nat} (hl : Leads servers h l last)
    {i : Nat} (hi : i ∈ l)
    (f : ShutdownState → ShutdownState) :
    ∃ l', (∀ k ∈ l', k ∈ l) ∧ Leads (servers.modify i f) h l' (.server i) := by
  induction hl with
  | here h => exact absurd hi List.not_mem_nil
  | @through k server next last l hserver hrequested hold hnext hbelow hrest ih =>
    obtain rfl | hi := List.mem_cons.mp hi
    · exact ⟨[], fun k hk => absurd hk List.not_mem_nil, .here _⟩
    · obtain ⟨l', hsub, hl'⟩ := ih hi
      have hsame : (servers.modify i f)[k]? = some server :=
        (List.getElem?_modify_ne _ _ (Nat.ne_of_lt (hbelow i hi))).trans hserver
      refine ⟨k :: l', ?_, .through hsame hrequested hold hnext
        (fun x hx => hbelow x (hsub x hx)) hl'⟩
      intro x hx
      obtain rfl | hx := List.mem_cons.mp hx
      · exact List.mem_cons_self
      · exact List.mem_cons_of_mem _ (hsub x hx)

/-- Where a server on the way is asked, no signal gets past it. -/
theorem stuck_of_request {p : Process} {h last : Handler} {l : List Nat}
    (hhandler : ∀ s, p.handler s = h)
    (hl : Leads p.servers h l last) {i : Nat} (hi : i ∈ l) :
    Stuck (p.setServer i fun server => { server with requested := true }) := by
  obtain ⟨l', -, hl'⟩ := hl.cut hi fun server => { server with requested := true }
  obtain ⟨server, hserver⟩ : ∃ server, p.servers[i]? = some server :=
    ⟨_, List.getElem?_eq_getElem (hl.lt i hi)⟩
  refine ⟨h, l', i, { server with requested := true }, hhandler, hl', ?_, rfl⟩
  simp [Process.setServer, hserver]

/-- A server that is created stands before the way that there was. -/
theorem leads_create {p : Process} {h last : Handler} {l : List Nat}
    (hhandler : ∀ s, p.handler s = h)
    (hnative : h ≠ .native) (hl : Leads p.servers h l last) :
    Leads (step p .create).servers (.server p.servers.length) (p.servers.length :: l) last := by
  have hold : ∀ k ∈ l, (step p .create).servers[k]? = p.servers[k]? := fun k hk =>
    List.getElem?_append_left (hl.lt k hk)
  have hnew : (step p .create).servers[p.servers.length]? = some { old := p.handler } := by
    simp [step]
  exact .through hnew rfl hhandler hnative hl.lt (hl.congr hold)

theorem Leads.ne_native {h last : Handler} {l : List Nat} (hl : Leads servers h l last)
    (hlast : last ≠ .native) :
    h ≠ .native := by
  cases hl with
  | here => exact hlast
  | through => exact Handler.noConfusion

/-- A request does nothing, or asks a server that was not asked and raises the signal. -/
theorem step_request (p : Process) (i : Nat) :
    ((∀ server, p.servers[i]? = some server → server.requested = true) ∧ step p (.request i) = p) ∨
      ∃ server, p.servers[i]? = some server ∧ server.requested = false ∧ step p (.request i) =
        deliver (p.setServer i fun server => { server with requested := true }) .sigint := by
  cases hserver : p.servers[i]? with
  | none => exact .inl ⟨fun server h => absurd h (by simp), by simp [step, hserver]⟩
  | some server =>
    cases hrequested : server.requested with
    | true =>
      exact .inl ⟨fun server' h => Option.some.inj h ▸ hrequested,
      by simp [step, hserver, hrequested]⟩
    | false => exact .inr ⟨server, rfl, hrequested, by simp [step, hserver, hrequested]⟩

/-- No event opens the way again. -/
theorem Stuck.step {p : Process} (h : Stuck p) (event : Event) :
    Stuck (step p event) ∧ (step p event).received = p.received := by
  cases event with
  | signal s => exact h.signal s
  | create =>
    obtain ⟨top, l, j, server, hhandler, hl, hserver, hrequested⟩ := h
    have hway := leads_create hhandler (hl.ne_native Handler.noConfusion) hl
    refine ⟨⟨_, _, j, server, fun _ => rfl, hway, ?_, hrequested⟩, rfl⟩
    exact (List.getElem?_append_left (List.getElem?_eq_some_iff.mp hserver).1).trans hserver
  | request i =>
    obtain ⟨-, hsame⟩ | ⟨asking, hasking, hfresh, hasked⟩ := step_request p i
    · rw [hsame]
      exact ⟨h, rfl⟩
    · obtain ⟨top, l, j, server, hhandler, hl, hserver, hrequested⟩ := h
      have hstuck : Stuck (p.setServer i fun server => { server with requested := true }) := by
        by_cases hi : i ∈ l
        · exact stuck_of_request hhandler hl hi
        · have hne : i ≠ j := by
            rintro rfl
            rw [hserver] at hasking
            cases hasking
            rw [hrequested] at hfresh
            cases hfresh
          refine ⟨top, l, j, server, hhandler, hl.congr fun k hk => ?_, ?_, hrequested⟩
          · exact List.getElem?_modify_ne _ _ fun heq => hi (heq ▸ hk)
          · exact (List.getElem?_modify_ne _ _ hne).trans hserver
      rw [hasked]
      exact hstuck.signal .sigint

/-- Nothing comes through any more. -/
theorem Stuck.run {p : Process} (h : Stuck p) (events : List Event) :
    (run p events).received = p.received := by
  induction events generalizing p with
  | nil => rfl
  | cons event events ih =>
    obtain ⟨hstuck, hreceived⟩ := h.step event
    exact (ih hstuck).trans hreceived

/-- A new server is at the start of the way. -/
theorem Opened.create {p : Process} {fresh : List Bool} (h : Opened p fresh) :
    Opened (step p .create) (fresh ++ [true]) := by
  obtain ⟨⟨top, l, hhandler, hl, hall⟩, hfresh⟩ := h
  refine ⟨⟨_, _, fun _ => rfl, leads_create hhandler (hl.ne_native Handler.noConfusion) hl, ?_⟩, ?_⟩
  · intro i server hserver hrequested
    obtain hlt | hge := Nat.lt_or_ge i p.servers.length
    · have hbefore : p.servers[i]? = some server :=
        (List.getElem?_append_left hlt).symm.trans hserver
      exact List.mem_cons_of_mem _ (hall i server hbefore hrequested)
    · have hi : i < (step p .create).servers.length := (List.getElem?_eq_some_iff.mp hserver).1
      have heq : i = p.servers.length := by
        simp only [HttpShutdown.step, List.length_append, List.length_singleton] at hi
        omega
      exact heq ▸ List.mem_cons_self
  · simp [HttpShutdown.step, hfresh]

/-- What comes through from an open way is what `passed` says. -/
theorem Opened.run {p : Process} {fresh : List Bool} (h : Opened p fresh) (events : List Event) :
    (run p events).received = p.received ++ passed fresh events := by
  induction events generalizing p fresh with
  | nil => simp [HttpShutdown.run, passed]
  | cons event events ih =>
    cases event with
    | create => exact ih h.create
    | signal s =>
      obtain ⟨hopened, hreceived⟩ := h.signal s
      calc (HttpShutdown.run p (.signal s :: events)).received
          = (deliver p s).received ++ passed (fresh.map fun _ => false) events := ih hopened
        _ = p.received ++ passed fresh (.signal s :: events) := by
            rw [hreceived, List.append_assoc]
            rfl
    | request i =>
      have hi : fresh[i]? = p.servers[i]?.map fun server =>
          !server.requested := by rw [h.fresh, List.getElem?_map]
      have hstep : HttpShutdown.run p (.request i :: events) =
          HttpShutdown.run (step p (.request i)) events := rfl
      rw [hstep, passed]
      obtain ⟨hnone, hsame⟩ | ⟨server, hserver, hrequested, hasked⟩ := step_request p i
      · have hnot : ¬fresh[i]? = some true := by
          rw [hi]
          intro htrue
          obtain ⟨server, hserver, hfresh⟩ := Option.map_eq_some_iff.mp htrue
          simp [hnone server hserver] at hfresh
        rw [hsame, if_neg hnot]
        exact ih h
      · obtain ⟨top, l, hhandler, hl, hall⟩ := h.way
        have hstuck := stuck_of_request hhandler hl (hall i server hserver hrequested)
        obtain ⟨hafter, hnothing⟩ := hstuck.signal .sigint
        rw [if_pos (by simp [hi, hserver, hrequested]), List.append_nil, hasked,
          hafter.run events, hnothing]
        rfl

/-- The handlers from before the servers get every signal up to the first request to a server that
was neither asked nor signalled, and nothing from then on: the request stops nothing, and no signal
does any more. -/
theorem request_shuts_signals_out (events : List Event) :
    (run {} events).received = passed [] events := by
  have hstart : Opened {} [] := by
    refine ⟨⟨.previous, [], fun _ => rfl, .here _, ?_⟩, rfl⟩
    intro i server hserver
    simp at hserver
  exact hstart.run events

/-- The shutdown is asked for, and neither signal ends the process. -/
example : (run {} [.create, .request 0, .signal .sigint, .signal .sigterm]).received =
    [] := by decide

end HttpShutdown

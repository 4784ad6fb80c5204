import Mathlib.Data.Finset.Filter
import Mathlib.Data.Finset.Insert
import Mathlib.Logic.Function.Basic
import Mathlib.Logic.Relation
import Mathlib.Tactic.Common

/-!
# Rooms of websockets

`WebSocketConnectionManagerImpl` of websocket_interceptor.py: the rooms, the known
sockets, and the sends that come from the backend. A send takes a snapshot under the lock,
tries its sockets one after the other, and forgets those whose attempt failed, again under
the lock; `join`, `add_websocket` and `remove_websocket` do not take it. A send may stand
at any of its awaits while others go on, also where the lock would be free at once.
-/
namespace SocketRooms

variable {σ : Type}

/-- Whom a send from the backend is for: `_send_from_backend` or `_broadcast_from_backend`. -/
inductive Target where
  | rooms (rooms : List String)
  | everyone
  deriving DecidableEq, Repr

/-- What becomes of `send_bytes`. -/
inductive Answer where
  | sent
  | webSocketDisconnect
  | runtimeError
  deriving DecidableEq, Repr

/-- Where a send stands: `trying` before the attempts that are left, `sending` at the
`await` of one of them. -/
inductive Pc (σ : Type) where
  | entering
  | snapshotting
  | trying (rest : List σ)
  | sending (websocket : σ) (rest : List σ)
  | forgetting
  | dropping
  | done

/-- A send with its list of targets and its list `dropped`. What `_try_send` was called for,
and what it returned, are records of the run. -/
structure Send (σ : Type) where
  target : Target
  pc : Pc σ := .entering
  targets : List σ := []
  dropped : List σ := []
  attempted : List σ := []
  returned : List (σ × Bool) := []

/-- The manager; `lock` is the send that holds it, `connected` what `is_ws_connected` says. -/
structure Manager (σ : Type) where
  rooms : String → Finset σ := fun _ => ∅
  allWebsockets : Finset σ := ∅
  lock : Option Nat := none
  connected : σ → Bool := fun _ => false
  sends : List (Send σ) := []

/-- An order in which Python goes through a set. -/
structure Iteration (σ : Type) where
  list : Finset σ → List σ
  nodup : ∀ members, (list members).Nodup
  mem : ∀ members websocket, websocket ∈ list members ↔ websocket ∈ members

variable [DecidableEq σ]

/-- The inner loop of the snapshot. -/
def addUnseen : List σ → List σ → List σ
  | [], targets => targets
  | websocket :: rest, targets =>
    if websocket ∈ targets then addUnseen rest targets else addUnseen rest (targets ++ [websocket])

/-- The outer loop of the snapshot. -/
def collect (order : Iteration σ) (members : String → Finset σ) : List String → List σ → List σ
  | [], targets => targets
  | room :: rest, targets =>
    collect order members rest (addUnseen (order.list (members room)) targets)

namespace Manager

def snapshot (s : Manager σ) (order : Iteration σ) : Target → List σ
  | .rooms rooms => collect order s.rooms rooms []
  | .everyone => order.list s.allWebsockets

/-- The loop of `_forget`, and the body of `remove_websocket`. -/
def forget (s : Manager σ) (websockets : List σ) : Manager σ :=
  { s with
    rooms := fun room => (s.rooms room).filter fun w => w ∉ websockets
    allWebsockets := s.allWebsockets.filter fun w => w ∉ websockets }

def join (s : Manager σ) (rooms : List String) (websocket : σ) : Manager σ :=
  { s with
    rooms := fun room => if room ∈ rooms then insert websocket (s.rooms room) else s.rooms room }

def addWebsocket (s : Manager σ) (websocket : σ) : Manager σ :=
  { s with allWebsockets := insert websocket s.allWebsockets }

omit [DecidableEq σ] in
def put (s : Manager σ) (n : Nat) (d : Send σ) : Manager σ := { s with sends := s.sends.set n d }

end Manager

/-- `_try_send` has returned; the comprehension keeps the socket if it was not usable. -/
def Send.tried (d : Send σ) (websocket : σ) (usable : Bool) (rest : List σ) : Send σ :=
  { d with
    pc := .trying rest
    dropped := if usable then d.dropped else d.dropped ++ [websocket]
    returned := d.returned ++ [(websocket, usable)] }

inductive Act (σ : Type) where
  | adds (websocket : σ)
  | joins (rooms : List String) (websocket : σ)
  | removes (websocket : σ)
  | connects
  | calls
  | snapshots (n : Nat)
  | moves (n : Nat)

inductive Step : Act σ → Manager σ → Manager σ → Prop
  | adds {s} (websocket : σ) : Step (.adds websocket) s (s.addWebsocket websocket)
  | joins {s} (rooms : List String) (websocket : σ) :
      Step (.joins rooms websocket) s (s.join rooms websocket)
  | removes {s} (websocket : σ) : Step (.removes websocket) s (s.forget [websocket])
  -- a socket connects or disconnects
  | connects {s} (websocket : σ) (state : Bool) :
      Step .connects s { s with connected := Function.update s.connected websocket state }
  | calls {s} (target : Target) :
      Step .calls s { s with sends := s.sends ++ [{ target := target }] }
  | enters {s n d} (h : s.sends[n]? = some d) (hpc : d.pc = .entering) (hfree : s.lock = none) :
      Step (.moves n) s { (s.put n { d with pc := .snapshotting }) with lock := some n }
  | snapshots {s n d} (order : Iteration σ) (h : s.sends[n]? = some d)
      (hpc : d.pc = .snapshotting) :
      Step (.snapshots n) s { (s.put n { d with
        pc := .trying (s.snapshot order d.target), targets :=
          s.snapshot order d.target }) with lock := none }
  | skips {s n d w rest} (h : s.sends[n]? = some d) (hpc : d.pc = .trying (w :: rest))
      (hclosed : s.connected w = false) :
      Step (.moves n) s
        (s.put n (Send.tried { d with attempted := d.attempted ++ [w] } w false rest))
  | tries {s n d w rest} (h : s.sends[n]? = some d) (hpc : d.pc = .trying (w :: rest))
      (hopen : s.connected w = true) :
      Step (.moves n) s (s.put n { d with pc := .sending w rest, attempted := d.attempted ++ [w] })
  | answers {s n d w rest} (answer : Answer) (h : s.sends[n]? = some d)
      (hpc : d.pc = .sending w rest) :
      Step (.moves n) s (s.put n (d.tried w (answer == .sent) rest))
  -- `_forget` returns at once for an empty list
  | returns {s n d} (h : s.sends[n]? = some d) (hpc : d.pc = .trying []) (hnone : d.dropped = []) :
      Step (.moves n) s (s.put n { d with pc := .done })
  | leaves {s n d} (h : s.sends[n]? = some d) (hpc : d.pc = .trying []) (hsome : d.dropped ≠ []) :
      Step (.moves n) s (s.put n { d with pc := .forgetting })
  | locks {s n d} (h : s.sends[n]? = some d) (hpc : d.pc = .forgetting) (hfree : s.lock = none) :
      Step (.moves n) s { (s.put n { d with pc := .dropping }) with lock := some n }
  | forgets {s n d} (h : s.sends[n]? = some d) (hpc : d.pc = .dropping) :
      Step (.moves n) s { ((s.forget d.dropped).put n { d with pc := .done }) with lock := none }

def Runs (P : Act σ → Prop) : Manager σ → Manager σ → Prop :=
  Relation.ReflTransGen fun s t => ∃ a, Step a s t ∧ P a

def AnyRun : Manager σ → Manager σ → Prop := Runs fun _ => True

/-- The act does not add the socket, nor let it join a room. -/
def Act.Spares (websocket : σ) : Act σ → Prop
  | .adds w => w ≠ websocket
  | .joins _ w => w ≠ websocket
  | _ => True

/-- A socket that is in no room and not known. -/
def Absent (s : Manager σ) (websocket : σ) : Prop :=
  (∀ room, websocket ∉ s.rooms room) ∧ websocket ∉ s.allWebsockets

/-- Whom a target means: the union of the rooms, or every known socket. -/
def Addressed (s : Manager σ) (websocket : σ) : Target → Prop
  | .rooms rooms => ∃ room ∈ rooms, websocket ∈ s.rooms room
  | .everyone => websocket ∈ s.allWebsockets

section Snapshots

theorem addUnseen_nodup (websockets targets : List σ) (h : targets.Nodup) :
    (addUnseen websockets targets).Nodup := by
  induction websockets generalizing targets with
  | nil => exact h
  | cons w rest ih =>
    rw [addUnseen]
    split
    · exact ih targets h
    · rename_i hnew
      exact ih _ (List.nodup_append.mpr ⟨h, List.nodup_singleton w, by
        intro a ha b hb
        rw [List.mem_singleton.mp hb]
        rintro rfl
        exact hnew ha⟩)

theorem mem_addUnseen {websockets targets : List σ} {w : σ} :
    w ∈ addUnseen websockets targets ↔ w ∈ targets ∨ w ∈ websockets := by
  induction websockets generalizing targets with
  | nil => simp [addUnseen]
  | cons v rest ih =>
    rw [addUnseen]
    split
    · rename_i hseen
      rw [ih, List.mem_cons]
      constructor
      · rintro (h | h)
        · exact .inl h
        · exact .inr (.inr h)
      · rintro (h | rfl | h)
        · exact .inl h
        · exact .inl hseen
        · exact .inr h
    · rw [ih, List.mem_append, List.mem_singleton, List.mem_cons, or_assoc]

theorem collect_nodup (order : Iteration σ) (members : String → Finset σ) (rooms : List String)
    (targets : List σ) (h : targets.Nodup) : (collect order members rooms targets).Nodup := by
  induction rooms generalizing targets with
  | nil => exact h
  | cons room rest ih => exact ih _ (addUnseen_nodup _ _ h)

theorem mem_collect (order : Iteration σ) (members : String → Finset σ) {rooms : List String}
    {targets : List σ} {w : σ} : w ∈ collect order members rooms targets ↔
      w ∈ targets ∨ ∃ room ∈ rooms, w ∈ members room := by
  induction rooms generalizing targets with
  | nil => simp [collect]
  | cons room rest ih =>
    simp only [collect, ih, mem_addUnseen, order.mem, List.exists_mem_cons_iff, or_assoc]

/-- A snapshot has each addressed socket once, however many rooms it is in. -/
theorem snapshot_spec (s : Manager σ) (order : Iteration σ) (target : Target) :
    (s.snapshot order target).Nodup ∧ ∀ w, w ∈ s.snapshot order target ↔ Addressed s w target := by
  cases target with
  | rooms rooms =>
    refine ⟨collect_nodup _ _ _ _ List.nodup_nil, ?_⟩
    intro w
    simp [Manager.snapshot, mem_collect, Addressed]
  | everyone => exact ⟨order.nodup _, order.mem _⟩

end Snapshots

/-- The attempts that are left. -/
def Pc.rest : Pc σ → List σ
  | .trying rest | .sending _ rest => rest
  | _ => []

/-- The attempt that has not returned. -/
def Pc.pending : Pc σ → List σ
  | .sending w _ => [w]
  | _ => []

/-- The snapshot was taken. -/
def Pc.taken : Pc σ → Bool
  | .entering | .snapshotting => false
  | _ => true

structure Sound (d : Send σ) : Prop where
  nodup : d.targets.Nodup
  fresh : d.pc.taken = false → d.targets = []
  split : d.attempted ++ d.pc.rest = d.targets
  answered : d.returned.map Prod.fst ++ d.pc.pending = d.attempted
  dropped : d.dropped = (d.returned.filter fun r => !r.2).map Prod.fst

section Steps

variable {s s₁ t : Manager σ} {a : Act σ}

omit [DecidableEq σ] in
theorem getElem?_put {n m : Nat} {d d' x : Send σ} (h : s.sends[n]? = some d)
    (hx : (s.put n d').sends[m]? = some x) : (m = n ∧ x = d') ∨ (m ≠ n ∧ s.sends[m]? = some x) := by
  by_cases hm : n = m
  · subst hm
    obtain ⟨hlt, -⟩ := List.getElem?_eq_some_iff.mp h
    rw [Manager.put, List.getElem?_set_self hlt] at hx
    exact .inl ⟨rfl, (Option.some.inj hx).symm⟩
  · rw [Manager.put, List.getElem?_set_ne hm] at hx
    exact .inr ⟨fun h => hm h.symm, hx⟩

omit [DecidableEq σ] in
/-- A send that was answered has tried one target more. -/
theorem Sound.tried {d : Send σ} {w : σ} {rest : List σ} (hnodup : d.targets.Nodup)
    (hsplit : d.attempted ++ rest = d.targets)
    (hanswered : d.returned.map Prod.fst ++ [w] = d.attempted)
    (hdropped : d.dropped = (d.returned.filter fun r => !r.2).map Prod.fst) (usable : Bool) :
    Sound (d.tried w usable rest) where
  nodup := hnodup
  fresh := by simp [Send.tried, Pc.taken]
  split := hsplit
  answered := by simpa [Send.tried, Pc.pending] using hanswered
  dropped := by
    cases usable with
    | true => simp [Send.tried, hdropped]
    | false => simp [Send.tried, hdropped]

/-- What a step can do to one send. -/
inductive Moved (s : Manager σ) : Send σ → Send σ → Prop
  | enters {d} (hpc : d.pc = .entering) : Moved s d { d with pc := .snapshotting }
  | snapshots {d} (order : Iteration σ) (hpc : d.pc = .snapshotting) :
      Moved s d { d with
        pc := .trying (s.snapshot order d.target)
        targets := s.snapshot order d.target }
  | skips {d w rest} (hpc : d.pc = .trying (w :: rest)) :
      Moved s d (Send.tried { d with attempted := d.attempted ++ [w] } w false rest)
  | tries {d w rest} (hpc : d.pc = .trying (w :: rest)) :
      Moved s d { d with pc := .sending w rest, attempted := d.attempted ++ [w] }
  | answers {d w rest} (usable : Bool) (hpc : d.pc = .sending w rest) :
      Moved s d (d.tried w usable rest)
  | ends {d} (pc : Pc σ) (hpc : d.pc.rest = [] ∧ d.pc.pending = [] ∧ d.pc.taken = true)
      (hpc' : pc = .forgetting ∨ pc = .dropping ∨ pc = .done) : Moved s d { d with pc := pc }

/-- A send in the next state was there, was just called, or has moved. -/
theorem send_cases (hstep : Step a s t) {m : Nat} {x : Send σ} (hx : t.sends[m]? = some x) :
    s.sends[m]? = some x ∨ (s.sends[m]? = none ∧ ∃ target, x = { target := target }) ∨
      ∃ d, s.sends[m]? = some d ∧ Moved s d x := by
  have hput : ∀ {n : Nat} {d d' : Send σ}, s.sends[n]? = some d → Moved s d d' →
      (s.put n d').sends[m]? = some x →
        s.sends[m]? = some x ∨ (s.sends[m]? = none ∧ ∃ target, x = { target := target }) ∨
          ∃ d, s.sends[m]? = some d ∧ Moved s d x := by
    intro n d d' hd hmoved hx
    obtain ⟨rfl, rfl⟩ | ⟨-, hx⟩ := getElem?_put hd hx
    · exact .inr (.inr ⟨d, hd, hmoved⟩)
    · exact .inl hx
  cases hstep with
  | adds w => exact .inl hx
  | joins rooms w => exact .inl hx
  | removes w => exact .inl hx
  | connects w state => exact .inl hx
  | calls target =>
    obtain hlt | hge := Nat.lt_or_ge m s.sends.length
    · rw [List.getElem?_append_left hlt] at hx
      exact .inl hx
    · rw [List.getElem?_append_right hge, List.getElem?_singleton] at hx
      split at hx
      · exact .inr (.inl ⟨List.getElem?_eq_none hge, target, (Option.some.inj hx).symm⟩)
      · cases hx
  | enters hd hpc hfree => exact hput hd (.enters hpc) hx
  | snapshots order hd hpc => exact hput hd (.snapshots order hpc) hx
  | skips hd hpc hclosed => exact hput hd (.skips hpc) hx
  | tries hd hpc hopen => exact hput hd (.tries hpc) hx
  | answers answer hd hpc => exact hput hd (.answers _ hpc) hx
  | returns hd hpc hnone =>
    exact hput hd (.ends .done (by simp [hpc, Pc.rest, Pc.pending, Pc.taken]) (by simp)) hx
  | leaves hd hpc hsome =>
    exact hput hd (.ends .forgetting (by simp [hpc, Pc.rest, Pc.pending, Pc.taken]) (by simp)) hx
  | locks hd hpc hfree =>
    exact hput hd (.ends .dropping (by simp [hpc, Pc.rest, Pc.pending, Pc.taken]) (by simp)) hx
  | forgets hd hpc =>
    exact hput hd (.ends .done (by simp [hpc, Pc.rest, Pc.pending, Pc.taken]) (by simp)) hx

/-- Every move keeps a send sound. -/
theorem moved_sound {d d' : Send σ} (h : Moved s d d') (hd : Sound d) : Sound d' := by
  obtain ⟨hnodup, hfresh, hsplit, hanswered, hdropped⟩ := hd
  cases h with
  | enters hpc =>
    have htargets := hfresh (by simp [hpc, Pc.taken])
    exact ⟨hnodup, fun _ => htargets, by simpa [hpc, Pc.rest] using hsplit,
      by simpa [hpc, Pc.pending] using hanswered, hdropped⟩
  | snapshots order hpc =>
    have htargets := hfresh (by simp [hpc, Pc.taken])
    have hattempted : d.attempted = [] := by simpa [hpc, Pc.rest, htargets] using hsplit
    refine ⟨(snapshot_spec s order d.target).1, by simp [Pc.taken], by simp [hattempted, Pc.rest],
      ?_, hdropped⟩
    simpa [hpc, Pc.pending] using hanswered
  | @skips w rest hpc =>
    have hsplit' : (d.attempted ++ [w]) ++ rest = d.targets := by simpa [hpc, Pc.rest] using hsplit
    have hanswered' : d.returned.map Prod.fst ++ [w] = d.attempted ++ [w] := by
      simpa [hpc, Pc.pending] using hanswered
    exact Sound.tried (d :=
      { d with attempted := d.attempted ++ [w] }) hnodup hsplit' hanswered' hdropped false
  | tries hpc =>
    refine ⟨hnodup, by simp [Pc.taken], ?_, ?_, hdropped⟩
    · simpa [hpc, Pc.rest] using hsplit
    · simpa [hpc, Pc.pending] using hanswered
  | answers usable hpc =>
    refine Sound.tried hnodup ?_ ?_ hdropped usable
    · simpa [hpc, Pc.rest] using hsplit
    · simpa [hpc, Pc.pending] using hanswered
  | ends pc hpc hpc' =>
    obtain ⟨hrest, hpending, -⟩ := hpc
    rw [hrest] at hsplit
    rw [hpending] at hanswered
    obtain rfl | rfl | rfl := hpc'
    · exact ⟨hnodup, by simp [Pc.taken], hsplit, hanswered, hdropped⟩
    · exact ⟨hnodup, by simp [Pc.taken], hsplit, hanswered, hdropped⟩
    · exact ⟨hnodup, by simp [Pc.taken], hsplit, hanswered, hdropped⟩

omit [DecidableEq σ] in
theorem sound_called (target : Target) : Sound ({ target := target } : Send σ) where
  nodup := List.nodup_nil
  fresh _ := rfl
  split := rfl
  answered := rfl
  dropped := rfl

/-- So does every step of the manager. -/
theorem step_sound (hstep : Step a s t) (h : ∀ d ∈ s.sends, Sound d) : ∀ d ∈ t.sends, Sound d := by
  intro d hd
  obtain ⟨m, hm⟩ := List.getElem?_of_mem hd
  obtain hold | ⟨-, target, rfl⟩ | ⟨d₀, hd₀, hmoved⟩ := send_cases hstep hm
  · exact h d (List.mem_of_getElem? hold)
  · exact sound_called target
  · exact moved_sound hmoved (h d₀ (List.mem_of_getElem? hd₀))

/-- In every run all sends are sound. -/
theorem run_sound (hrun : AnyRun {} s) : ∀ d ∈ s.sends, Sound d := by
  induction hrun with
  | refl => simp
  | tail _ hstep ih =>
    obtain ⟨a, hstep, -⟩ := hstep
    exact step_sound hstep ih

theorem Runs.any {P : Act σ → Prop} (h : Runs P s t) : AnyRun s t := by
  refine Relation.ReflTransGen.mono ?_ _ _ h
  rintro s t ⟨a, hstep, -⟩
  exact ⟨a, hstep, trivial⟩

theorem step_length (hstep : Step a s t) : s.sends.length ≤ t.sends.length := by
  cases hstep <;> simp [Manager.put, Manager.forget, Manager.join, Manager.addWebsocket]

/-- A send that took its snapshot keeps it. -/
theorem step_targets (hstep : Step a s t) {n : Nat} {d : Send σ} (hd : s.sends[n]? = some d)
    (htaken : d.pc.taken = true) :
    ∃ d', t.sends[n]? = some d' ∧ d'.pc.taken = true ∧ d'.targets = d.targets := by
  obtain ⟨hlt, -⟩ := List.getElem?_eq_some_iff.mp hd
  obtain ⟨x, hx⟩ : ∃ x, t.sends[n]? = some x :=
    ⟨_, List.getElem?_eq_getElem (Nat.lt_of_lt_of_le hlt (step_length hstep))⟩
  refine ⟨x, hx, ?_⟩
  obtain hold | ⟨hnone, -⟩ | ⟨d₀, hd₀, hmoved⟩ := send_cases hstep hx
  · rw [hd] at hold
    rw [← Option.some.inj hold]
    exact ⟨htaken, rfl⟩
  · rw [hd] at hnone
    cases hnone
  · rw [hd] at hd₀
    cases hd₀
    cases hmoved with
    | enters hpc => simp [hpc, Pc.taken] at htaken
    | snapshots order hpc => simp [hpc, Pc.taken] at htaken
    | skips hpc => exact ⟨rfl, rfl⟩
    | tries hpc => exact ⟨rfl, rfl⟩
    | answers usable hpc => exact ⟨rfl, rfl⟩
    | ends pc hpc hpc' =>
      obtain rfl | rfl | rfl := hpc'
      · exact ⟨rfl, rfl⟩
      · exact ⟨rfl, rfl⟩
      · exact ⟨rfl, rfl⟩

theorem run_targets (hrun : AnyRun s t) {n : Nat} {d : Send σ} (hd : s.sends[n]? = some d)
    (htaken : d.pc.taken = true) :
    ∃ d', t.sends[n]? = some d' ∧ d'.pc.taken = true ∧ d'.targets = d.targets := by
  induction hrun with
  | refl => exact ⟨d, hd, htaken, rfl⟩
  | tail _ hstep ih =>
    obtain ⟨a, hstep, -⟩ := hstep
    obtain ⟨d₁, hd₁, htaken₁, htargets₁⟩ := ih
    obtain ⟨d₂, hd₂, htaken₂, htargets₂⟩ := step_targets hstep hd₁ htaken₁
    exact ⟨d₂, hd₂, htaken₂, htargets₂.trans htargets₁⟩

/-- From the snapshot on, what a send has attempted and what is left is whom it addressed. -/
theorem attempted_of_snapshot {n : Nat} {d d' : Send σ} (hreach : AnyRun {} s)
    (hd : s.sends[n]? = some d)
    (hsnap : Step (.snapshots n) s s₁) (hrun : AnyRun s₁ t) (hd' : t.sends[n]? = some d') :
    (d'.attempted ++ d'.pc.rest).Nodup ∧
      ∀ w, w ∈ d'.attempted ++ d'.pc.rest ↔ Addressed s w d.target := by
  have hreach' : AnyRun {} t := (hreach.tail ⟨_, hsnap, trivial⟩).trans hrun
  rw [(run_sound hreach' d' (List.mem_of_getElem? hd')).split]
  cases hsnap with
  | snapshots order hd₀ hpc =>
    rw [hd] at hd₀
    cases hd₀
    obtain ⟨hlt, -⟩ := List.getElem?_eq_some_iff.mp hd
    obtain ⟨d₁, hd₁, -, htargets⟩ := run_targets hrun (List.getElem?_set_self hlt) rfl
    rw [hd'] at hd₁
    rw [Option.some.inj hd₁, htargets]
    exact snapshot_spec s order d.target

theorem absent_forget (s : Manager σ) {websockets : List σ} {w : σ} (h : w ∈ websockets) :
    Absent (s.forget websockets) w := by
  constructor
  · intro room
    simp [Manager.forget, h]
  · simp [Manager.forget, h]

theorem Absent.forget {w : σ} (h : Absent s w) (websockets : List σ) :
    Absent (s.forget websockets) w := by
  constructor
  · intro room hmem
    exact h.1 room (Finset.mem_filter.mp hmem).1
  · intro hmem
    exact h.2 (Finset.mem_filter.mp hmem).1

omit [DecidableEq σ] in
/-- No target addresses a socket that is absent. -/
theorem Absent.not_addressed {w : σ} (h : Absent s w) (target : Target) :
    ¬ Addressed s w target := by
  cases target with
  | rooms rooms =>
    rintro ⟨room, -, hmem⟩
    exact h.1 room hmem
  | everyone => exact h.2

/-- Only an act of its own brings a socket back. -/
theorem step_absent {w : σ} (hstep : Step a s t) (hspares : a.Spares w) (h : Absent s w) :
    Absent t w := by
  cases hstep with
  | adds v =>
    refine ⟨h.1, ?_⟩
    intro hmem
    obtain rfl | hmem := Finset.mem_insert.mp hmem
    · exact hspares rfl
    · exact h.2 hmem
  | joins rooms v =>
    refine ⟨?_, h.2⟩
    intro room hmem
    simp only [Manager.join] at hmem
    split at hmem
    · obtain rfl | hmem := Finset.mem_insert.mp hmem
      · exact hspares rfl
      · exact h.1 room hmem
    · exact h.1 room hmem
  | removes v => exact h.forget [v]
  | forgets hd hpc => exact h.forget _
  | connects v state => exact h
  | calls target => exact h
  | enters hd hpc hfree => exact h
  | snapshots order hd hpc => exact h
  | skips hd hpc hclosed => exact h
  | tries hd hpc hopen => exact h
  | answers answer hd hpc => exact h
  | returns hd hpc hnone => exact h
  | leaves hd hpc hsome => exact h
  | locks hd hpc hfree => exact h

/-- A socket stays absent while nobody adds it. -/
theorem run_absent {w : σ} (hrun : Runs (Act.Spares w) s t) (h : Absent s w) : Absent t w := by
  induction hrun with
  | refl => exact h
  | tail _ hstep ih =>
    obtain ⟨a, hstep, hspares⟩ := hstep
    exact step_absent hstep hspares ih

/-- A send that has just completed forgot every socket whose attempt failed. -/
theorem absent_of_done {n : Nat} {d' : Send σ} {w : σ} (hreach : AnyRun {} s)
    (hstep : Step (.moves n) s t)
    (hd' : t.sends[n]? = some d') (hdone : d'.pc = .done) (hw : (w, false) ∈ d'.returned) :
    Absent t w := by
  have hdropped : w ∈ d'.dropped := by
    rw [(run_sound (hreach.tail ⟨_, hstep, trivial⟩) d' (List.mem_of_getElem? hd')).dropped]
    exact List.mem_map_of_mem (List.mem_filter.mpr ⟨hw, rfl⟩)
  have hself : ∀ {d x : Send σ}, s.sends[n]? = some d →
      (s.put n x).sends[n]? = some d' → d' = x := by
    intro d x hd hx
    obtain ⟨-, hx⟩ | ⟨hne, -⟩ := getElem?_put hd hx
    · exact hx
    · exact absurd rfl hne
  cases hstep with
  | enters hd hpc hfree => rw [hself hd hd'] at hdone; cases hdone
  | skips hd hpc hclosed => rw [hself hd hd'] at hdone; cases hdone
  | tries hd hpc hopen => rw [hself hd hd'] at hdone; cases hdone
  | answers answer hd hpc => rw [hself hd hd'] at hdone; cases hdone
  | returns hd hpc hnone =>
    rw [hself hd hd'] at hdropped
    simp [hnone] at hdropped
  | leaves hd hpc hsome => rw [hself hd hd'] at hdone; cases hdone
  | locks hd hpc hfree => rw [hself hd hd'] at hdone; cases hdone
  | forgets hd hpc =>
    rw [hself hd hd'] at hdropped
    exact absent_forget s hdropped

/-- A step of a send changes the rooms and the known sockets only by what failed in it. -/
theorem kept_of_usable {n : Nat} {d' : Send σ} {w : σ} (hreach : AnyRun {} s) (hstep : Step a s t)
    (ha : a = .moves n ∨ a = .snapshots n) (hd' : t.sends[n]? = some d')
    (hw : (w, false) ∉ d'.returned) :
    (∀ room, w ∈ t.rooms room ↔ w ∈ s.rooms room) ∧
      (w ∈ t.allWebsockets ↔ w ∈ s.allWebsockets) := by
  have hsound := run_sound (hreach.tail ⟨_, hstep, trivial⟩) d' (List.mem_of_getElem? hd')
  have hdropped : w ∉ d'.dropped := by
    rw [hsound.dropped]
    intro hmem
    obtain ⟨⟨v, usable⟩, hr, rfl⟩ := List.mem_map.mp hmem
    obtain ⟨hr, husable⟩ := List.mem_filter.mp hr
    cases usable with
    | true => cases husable
    | false => exact hw hr
  cases hstep with
  | forgets hd hpc =>
    obtain ha | ha := ha
    · cases ha
      obtain ⟨-, rfl⟩ | ⟨hne, -⟩ := getElem?_put hd hd'
      · simp only at hdropped
        simp [Manager.forget, Manager.put, hdropped]
      · exact absurd rfl hne
    · cases ha
  | adds v => simp at ha
  | joins rooms v => simp at ha
  | removes v => simp at ha
  | connects v state => simp at ha
  | calls target => simp at ha
  | enters hd hpc hfree => simp [Manager.put]
  | snapshots order hd hpc => simp [Manager.put]
  | skips hd hpc hclosed => simp [Manager.put]
  | tries hd hpc hopen => simp [Manager.put]
  | answers answer hd hpc => simp [Manager.put]
  | returns hd hpc hnone => simp [Manager.put]
  | leaves hd hpc hsome => simp [Manager.put]
  | locks hd hpc hfree => simp [Manager.put]

end Steps

/-- Every send in every run: its attempts are the sockets addressed at its snapshot, each
once; what failed is forgotten when it completes, until an act of its own brings the socket
back; nothing else is dropped; and a removed socket is in no later snapshot. -/
theorem sends_deliver_and_forget {s : Manager σ} (hreach : AnyRun {} s) (n : Nat) :
    (∀ s₁ t d d', s.sends[n]? = some d → Step (.snapshots n) s s₁ → AnyRun s₁ t →
      t.sends[n]? = some d' → d'.pc = .done →
        d'.returned.map Prod.fst = d'.attempted ∧
        (∀ w, Addressed s w d.target → d'.attempted.count w = 1) ∧
        ∀ w, ¬ Addressed s w d.target → d'.attempted.count w = 0) ∧
    (∀ t u d' w, Step (.moves n) s t → t.sends[n]? = some d' → d'.pc = .done →
      (w, false) ∈ d'.returned →
      Runs (Act.Spares w) t u → Absent u w) ∧
    (∀ a t d' w, Step a s t → a = .moves n ∨ a = .snapshots n → t.sends[n]? = some d' →
      (w, false) ∉ d'.returned →
        (∀ room, w ∈ t.rooms room ↔ w ∈ s.rooms room) ∧
          (w ∈ t.allWebsockets ↔ w ∈ s.allWebsockets)) ∧
    ∀ s₁ u u₁ t d' w, Step (.removes w) s s₁ → Runs (Act.Spares w) s₁ u → Step (.snapshots n) u u₁ →
      AnyRun u₁ t → t.sends[n]? = some d' → w ∉ d'.attempted := by
  refine ⟨?_, ?_, ?_, ?_⟩
  · intro s₁ t d d' hd hsnap hrun hd' hdone
    have hsound :=
      run_sound ((hreach.tail ⟨_, hsnap, trivial⟩).trans hrun) d' (List.mem_of_getElem? hd')
    obtain ⟨hnodup, hmem⟩ := attempted_of_snapshot hreach hd hsnap hrun hd'
    simp only [hdone, Pc.rest, List.append_nil] at hnodup hmem
    refine ⟨by simpa [hdone, Pc.pending] using hsound.answered, ?_, ?_⟩
    · intro w hw
      exact List.count_eq_one_of_mem hnodup ((hmem w).mpr hw)
    · intro w hw
      exact List.count_eq_zero_of_not_mem fun h => hw ((hmem w).mp h)
  · intro t u d' w hstep hd' hdone hw hrun
    exact run_absent hrun (absent_of_done hreach hstep hd' hdone hw)
  · intro a t d' w hstep ha hd' hw
    exact kept_of_usable hreach hstep ha hd' hw
  · intro s₁ u u₁ t d' w hremoves hspares hsnap hrun hd' hw
    have hu : AnyRun {} u := (hreach.tail ⟨_, hremoves, trivial⟩).trans hspares.any
    have habsent : Absent u w := by
      cases hremoves
      exact run_absent hspares (absent_forget s (List.mem_singleton_self w))
    obtain ⟨d, hd⟩ : ∃ d, u.sends[n]? = some d := by
      cases hsnap with
      | snapshots order hd hpc => exact ⟨_, hd⟩
    obtain ⟨-, hmem⟩ := attempted_of_snapshot hu hd hsnap hrun hd'
    exact habsent.not_addressed d.target ((hmem w).mp (List.mem_append_left _ hw))

def soleOrder : Iteration Unit where
  list members := if () ∈ members then [()] else []
  nodup members := by split <;> simp
  mem members w := by by_cases h : () ∈ members <;> simp [h]

/-- A socket in two rooms, and a send to both. -/
def twice (lock : Option Nat) (d : Send Unit) : Manager Unit :=
  { ((({} : Manager Unit).addWebsocket ()).join ["a", "b"] ()) with sends := [d], lock := lock }

/-- The socket is not connected: it is tried once and forgotten. -/
theorem sends_deliver_and_forget_twice :
    ∃ s t d', AnyRun {} s ∧ s.sends[0]? = some d' ∧ d'.attempted.count () = 1 ∧
      Step (.moves 0) s t ∧
      Absent t () := by
  let d : Send Unit := { target := .rooms ["a", "b"] }
  let d₁ : Send Unit := { d with pc := .snapshotting }
  let d₂ : Send Unit := { d with pc := .trying [()], targets := [()] }
  let d₃ : Send Unit := Send.tried { d₂ with attempted := [()] } () false []
  have h₀ : AnyRun {} (({} : Manager Unit).addWebsocket ()) := .single ⟨_, .adds (), trivial⟩
  have h₁ := h₀.tail ⟨_, .joins ["a", "b"] (), trivial⟩
  have h₂ : AnyRun {} (twice none d) := h₁.tail ⟨_, .calls (.rooms ["a", "b"]), trivial⟩
  have hreach : AnyRun {} (twice (some 0) d₁) :=
    h₂.tail ⟨_, Step.enters (s := twice none d) (n := 0) (d := d) rfl rfl rfl, trivial⟩
  have hsnap : Step (.snapshots 0) (twice (some 0) d₁) (twice none d₂) :=
    Step.snapshots (s := twice (some 0) d₁) (n := 0) (d := d₁) soleOrder rfl rfl
  have hskips : Step (.moves 0) (twice none d₂) (twice none d₃) :=
    Step.skips (s := twice none d₂) (n := 0) (d := d₂) rfl rfl rfl
  have hleaves : Step (.moves 0) (twice none d₃) (twice none { d₃ with pc := .forgetting }) :=
    Step.leaves (s := twice none d₃) (n := 0) (d := d₃) rfl rfl (by decide)
  have hlocks : Step (.moves 0) (twice none { d₃ with pc := .forgetting })
      (twice (some 0) { d₃ with pc := .dropping }) :=
    Step.locks (s := twice none { d₃ with pc := .forgetting }) (n := 0)
      (d := { d₃ with pc := .forgetting }) rfl rfl rfl
  have hforgets := Step.forgets (s := twice (some 0) { d₃ with pc := .dropping }) (n := 0)
    (d := { d₃ with pc := .dropping }) rfl rfl
  have hrun : AnyRun (twice none d₂) (twice (some 0) { d₃ with pc := .dropping }) :=
    ((Relation.ReflTransGen.single ⟨_, hskips, trivial⟩).tail ⟨_, hleaves, trivial⟩).tail
      ⟨_, hlocks, trivial⟩
  have hall := (hreach.tail ⟨_, hsnap, trivial⟩).trans hrun
  have hdone :=
    ((sends_deliver_and_forget hreach 0).1 _ _ _ _ rfl hsnap
    (hrun.tail ⟨_, hforgets, trivial⟩) rfl rfl)
  refine ⟨_, _, { d₃ with pc := .dropping }, hall, rfl, ?_, hforgets, ?_⟩
  · exact hdone.2.1 () ⟨"a", by decide, by decide⟩
  · exact (sends_deliver_and_forget hall 0).2.1 _ _ _ () hforgets rfl rfl (by decide) .refl

end SocketRooms

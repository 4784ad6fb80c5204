import Mathlib.Data.List.Perm.Basic
import Mathlib.Data.List.Nodup
import Jararaca.Containers

/-!
# The order of the providers

What the container holds after the start, for every listing of a set of providers. A
provider always registers an object of its own, so an object built before it that depends
on its token holds another one, registered on demand: the listing does not matter only
where no provider depends on a token that may be filled later.
-/
namespace ProviderOrder

open Messages Containers

def gives (p : ProviderSpec) : Option Label :=
  match p.useValue with
  | some v => some (.value v)
  | none => (p.useClass.or p.useFactory).map .of

def registers (p : ProviderSpec) : Option Label :=
  match p.useValue.filter Value.truthy with
  | some v => some (.value v)
  | none => (p.useClass.or p.useFactory).map .of

def Provided (providers : List Provider) (key : Key) : Prop :=
  ∃ p ∈ specs providers, p.provide = key

def ProvidedBefore (providers : List Provider) (key : Key) : Prop :=
  ∃ p ∈ specs providers, p.provide = key ∧ p.afterInterceptors = false

/-- The keys that building a callable looks at, if those of `avail` are there already. -/
inductive Reach (sig : Signatures) (avail : Key → Prop) (c : Callable) : Key → Prop where
  | direct {d : String × Key} (dependency : d ∈ sig.dependencies c) : Reach sig avail c d.2
  | through {key : Key} {d : String × Key} (reached : Reach sig avail c key) (missing : ¬avail key)
      (dependency : d ∈ sig.dependencies key.callable) : Reach sig avail c d.2

/-- A callable whose call succeeds, and whose dependencies are in `avail` or can be built
in turn: there is no cycle between them. -/
inductive Buildable (sig : Signatures) (avail : Key → Prop) : Callable → Prop where
  | intro {c : Callable} (succeeds : sig.succeeds c = true)
      (dependencies : ∀ d ∈ sig.dependencies c, ¬avail d.2 → Buildable sig avail d.2.callable) :
      Buildable sig avail c

/-- An object and, at any depth, the arguments it was built with. -/
inductive Part : Obj → Obj → Prop where
  | self (o : Obj) : Part o o
  | arg {id : Nat} {c : Callable} {args : List (String × Obj)} {a : String × Obj} {o : Obj}
      (held : a ∈ args) (part : Part a.2 o) : Part (.built id c args) o

/-- The container returns for each token what its provider gives, and whatever was built
for a provider holds, for a token that is provided, the container's object for it. -/
structure Wired (sig : Signatures) (limit : Nat) (providers : List Provider)
    (s : Container) : Prop where
  returned : ∀ p ∈ specs providers, ∃ o,
    (getOrRegister sig limit p.provide s).map Prod.fst = .ok o ∧ gives p = some o.label
  held : ∀ p ∈ specs providers, ∀ o, s.instances p.provide = some o →
    ∀ id c args, Part o (.built id c args) → ∀ x ∈ (sig.dependencies c).zip args,
      Provided providers x.1.2 → s.instances x.1.2 = some x.2.2

/-- Two objects of two containers are what the same value or callable gave, and argument
for argument both are the containers' objects or neither is, and are wired the same. -/
inductive SameWiring (sig : Signatures) (s s' : Container) : Obj → Obj → Prop where
  | value (v : Value) : SameWiring sig s s' (.value v) (.value v)
  | built {id id' : Nat} {c : Callable} {args args' : List (String × Obj)}
      (length : args.length = args'.length)
      (held : ∀ x ∈ (sig.dependencies c).zip (args.zip args'),
        (s.instances x.1.2 = some x.2.1.2 ↔ s'.instances x.1.2 = some x.2.2.2))
      (args_same : ∀ x ∈ args.zip args', SameWiring sig s s' x.1.2 x.2.2) :
      SameWiring sig s s' (.built id c args) (.built id' c args')

/-- For every listing of the providers the start comes to an end, with the container wired
as the providers say; and all listings wire it the same. -/
def OrderFree (sig : Signatures) (providers : List Provider)
    (interceptors : List Callable) : Prop :=
  ∃ enough, ∀ limit, enough ≤ limit →
    (∀ listing : List Provider, listing.Perm providers → ∃ s,
      startContainer sig limit listing interceptors = .ok s ∧ Wired sig limit listing s) ∧
    ∀ listing listing' : List Provider, listing.Perm providers → listing'.Perm providers →
      ∀ s s', startContainer sig limit listing interceptors = .ok s →
        startContainer sig limit listing' interceptors = .ok s' →
          ∀ p ∈ specs providers, ∃ o o', s.instances p.provide = some o ∧
            s'.instances p.provide = some o' ∧ SameWiring sig s s' o o'

/-- Each token has one provider, which gives something; what is not provided can be built,
without cycles; and so can the interceptors, from what is provided before them. -/
structure Complete (sig : Signatures) (providers : List Provider) (interceptors : List Callable) :
    Prop where
  distinct : ((specs providers).map ProviderSpec.provide).Nodup
  given : ∀ p ∈ specs providers, gives p ≠ none
  buildable : ∀ p ∈ specs providers, ∀ c, gives p = some (.of c) →
    Buildable sig (Provided providers) c
  interceptors : ∀ i ∈ interceptors, ¬ProvidedBefore providers (.type i) →
    Buildable sig (ProvidedBefore providers) i

/-- No plain type, no value that is not true, and every token that building a provider
looks at is provided before the interceptors, the provider after them. -/
structure Layered (sig : Signatures) (providers : List Provider) : Prop where
  noPlain : ∀ t, .plain t ∉ providers
  truthy : ∀ p ∈ specs providers, ∀ v, p.useValue = some v → v.truthy = true
  apart : ∀ p ∈ specs providers, ∀ c, gives p = some (.of c) → ∀ q ∈ specs providers,
    Reach sig (Provided providers) c q.provide →
      p.afterInterceptors = true ∧ q.afterInterceptors = false

section Turns

variable {sig : Signatures} {limit : Nat} {s s' : Container}

theorem fillOne_eq (p : ProviderSpec) (s : Container) : fillOne sig limit p s =
    match registers p with
    | none => .ok s
    | some (.value v) => .ok (s.register p.provide (.value v))
    | some (.of c) =>
      (getAndRegister sig (getOrRegister sig limit) c p.provide s).map Prod.snd := by
  unfold fillOne registers
  cases p.useValue.filter Value.truthy with
  | some v => rfl
  | none =>
    cases p.useClass with
    | some c => rfl
    | none =>
      cases p.useFactory with
      | none => rfl
      | some f => rfl

theorem registers_of {p : ProviderSpec} {c : Callable} (h : gives p = some (.of c)) :
    registers p = some (.of c) := by
  unfold gives at h
  unfold registers
  cases hv : p.useValue with
  | some v => simp [hv] at h
  | none => simpa [hv] using h

theorem registers_truthy {p : ProviderSpec} (h : ∀ v, p.useValue = some v → v.truthy = true) :
    registers p = gives p := by
  unfold registers gives
  cases hv : p.useValue with
  | none => rfl
  | some v =>
    have hkept : Option.filter Value.truthy (some v) = some v := by simp [Option.filter, h v hv]
    simp only [hkept]

/-- What a provider's turn does: nothing, or one registration under its token, after
others on demand. -/
theorem provider_cases {p : ProviderSpec} (D : Key → Prop)
    (hD : ∀ c, registers p = some (.of c) → (∀ d ∈ sig.dependencies c, D d.2) ∧ Closed sig D s)
    (h : takeTurn sig limit (.provider p) s = .ok s') :
    (registers p = none ∧ s' = s) ∨
    (∃ v, registers p = some (.value v) ∧ s' = s.register p.provide (.value v)) ∨
    (∃ c s₁ args, registers p = some (.of c) ∧ Moves sig (OnDemand D) s s₁ ∧
      Fit s₁ (sig.dependencies c) args ∧ s' = (s₁.call p.provide c args).2) := by
  rw [takeTurn, fillOne_eq] at h
  cases hr : registers p with
  | none =>
    simp only [hr, Except.ok.injEq] at h
    exact .inl ⟨rfl, h.symm⟩
  | some l =>
    cases l with
    | value v =>
      simp only [hr, Except.ok.injEq] at h
      exact .inr (.inl ⟨v, rfl, h.symm⟩)
    | of c =>
      simp only [hr] at h
      cases hg : getAndRegister sig (getOrRegister sig limit) c p.provide s with
      | error e => simp [hg, Except.map] at h
      | ok r =>
        obtain ⟨o, s₂⟩ := r
        obtain rfl : s₂ = s' := by simpa [hg, Except.map] using h
        obtain ⟨hdeps, hc⟩ := hD c hr
        obtain ⟨s₁, args, hmoves, hfit, -, rfl⟩ := getAndRegister_moves hg hdeps hc
        exact .inr (.inr ⟨c, s₁, args, rfl, hmoves, hfit, rfl⟩)

/-- The turn of an interceptor registers on demand only. -/
theorem interceptor_moves {i : Callable} {D : Key → Prop} (hi : D (.type i)) (hc : Closed sig D s)
    (h : takeTurn sig limit (.interceptor i) s = .ok s') : Moves sig (OnDemand D) s s' := by
  rw [takeTurn] at h
  cases hg : getOrRegister sig limit (.type i) s with
  | error e => simp [hg, Except.map] at h
  | ok r =>
    obtain ⟨o, s₁⟩ := r
    obtain rfl : s₁ = s' := by simpa [hg, Except.map] using h
    exact (getOrRegister_resolves limit _ _ _ _ hg hi hc).1

end Turns

section Typed

variable {sig : Signatures} {R : Key → Label → Prop}

/-- Registered objects are what `R` lets their keys have, and so are the arguments of all
their parts; their numbers are below the next one. -/
def Typed (sig : Signatures) (R : Key → Label → Prop) (s : Container) : Prop :=
  ∀ key o, s.instances key = some o → R key o.label ∧ ∀ id c args, Part o (.built id c args) →
    id < s.next ∧ List.Forall₂ (fun d a => R d.2 a.2.label) (sig.dependencies c) args

theorem part_value {v : Value} {o : Obj} (h : Part (.value v) o) : o = .value v := by
  cases h
  rfl

/-- A part of a part is a part. -/
theorem Part.trans {o o' o'' : Obj} (h : Part o o') (h' : Part o' o'') : Part o o'' := by
  induction h with
  | self => exact h'
  | arg held _ ih => exact .arg held (ih h')

/-- An argument is smaller than what was built with it. -/
theorem arg_size {id : Nat} {c : Callable} {args : List (String × Obj)} {a : String × Obj}
    (h : a ∈ args) : sizeOf a.2 < sizeOf (Obj.built id c args) := by
  have harg : sizeOf a < sizeOf args := List.sizeOf_lt_of_mem h
  have hpair : sizeOf a.2 < sizeOf a := by
    cases a
    simp
  simp only [Obj.built.sizeOf_spec]
  omega

theorem Part.size {o o' : Obj} (h : Part o o') : sizeOf o' ≤ sizeOf o := by
  induction h with
  | self => exact le_rfl
  | arg held _ ih => exact ih.trans (arg_size held).le

theorem mem_zip_of_mem_left {α β : Type} {r : α → β → Prop} {l : List α} {l' : List β}
    (h : List.Forall₂ r l l') {a : α} (ha : a ∈ l) : ∃ b, (a, b) ∈ l.zip l' := by
  rw [← List.map_fst_zip h.length_eq.le] at ha
  obtain ⟨x, hx, rfl⟩ := List.mem_map.mp ha
  exact ⟨x.2, hx⟩

theorem mem_zip_of_mem_right {α β : Type} {r : α → β → Prop} {l : List α} {l' : List β}
    (h : List.Forall₂ r l l') {b : β} (hb : b ∈ l') : ∃ a, (a, b) ∈ l.zip l' := by
  rw [← List.map_snd_zip h.length_eq.ge] at hb
  obtain ⟨x, hx, rfl⟩ := List.mem_map.mp hb
  exact ⟨x.1, hx⟩

/-- A call keeps the objects typed, if its arguments fit. -/
theorem typed_call {s : Container} {key : Key} {c : Callable} {args : List (String × Obj)}
    (hs : Typed sig R s) (hR : R key (.of c)) (hfit : Fit s (sig.dependencies c) args) :
    Typed sig R (s.call key c args).2 := by
  intro key' o ho
  rw [call_instances] at ho
  by_cases hk : key' = key
  · subst hk
    rw [Function.update_self, Option.some.injEq] at ho
    subst ho
    refine ⟨hR, ?_⟩
    intro id c' args' hpart
    cases hpart with
    | self =>
      refine ⟨by simp, ?_⟩
      refine List.Forall₂.imp ?_ hfit
      intro d a hda
      exact (hs d.2 a.2 hda.2).1
    | arg held part =>
      obtain ⟨d, hd⟩ := mem_zip_of_mem_right hfit held
      have hobj := (List.forall₂_zip hfit hd).2
      obtain ⟨hlt, htyped⟩ := (hs d.2 _ hobj).2 id c' args' part
      exact ⟨by simpa using hlt.trans (Nat.lt_succ_self _), htyped⟩
  · rw [Function.update_of_ne hk] at ho
    obtain ⟨hlabel, hparts⟩ := hs key' o ho
    refine ⟨hlabel, ?_⟩
    intro id c' args' hpart
    obtain ⟨hlt, htyped⟩ := hparts id c' args' hpart
    exact ⟨by simpa using hlt.trans (Nat.lt_succ_self _), htyped⟩

theorem typed_register {s : Container} {key : Key} {v : Value} (hs : Typed sig R s)
    (hR : R key (.value v)) : Typed sig R (s.register key (.value v)) := by
  intro key' o ho
  rw [register_instances] at ho
  by_cases hk : key' = key
  · subst hk
    rw [Function.update_self, Option.some.injEq] at ho
    subst ho
    refine ⟨hR, ?_⟩
    intro id c args hpart
    exact absurd (part_value hpart) (by simp)
  · rw [Function.update_of_ne hk] at ho
    exact hs key' o ho

theorem moves_typed {P : Container → Key → Label → Prop} {s s' : Container} (h : Moves sig P s s')
    (hP : ∀ s key l, P s key l → R key l) (hs : Typed sig R s) : Typed sig R s' := by
  refine h.preserves ?_ hs
  intro a b hmove ha
  cases hmove with
  | value allowed => exact typed_register ha (hP _ _ _ allowed)
  | built allowed fit => exact typed_call ha (hP _ _ _ allowed) fit

end Typed

section Runs

variable {sig : Signatures} {limit : Nat} {s s' : Container}

/-- What a list of turns may register: keys on demand, and tokens by their providers. -/
def TurnAllows (ts : List Turn) (s : Container) (key : Key) (l : Label) : Prop :=
  OnDemand (fun _ => True) s key l ∨
    ∃ p, .provider p ∈ ts ∧ p.provide = key ∧ registers p = some l

theorem closed_all (s : Container) : Closed sig (fun _ => True) s := fun _ _ _ _ _ => trivial

theorem takeTurn_moves {ts : List Turn} {t : Turn} (ht : t ∈ ts)
    (h : takeTurn sig limit t s = .ok s') : Moves sig (TurnAllows ts) s s' := by
  cases t with
  | interceptor i =>
    have hmoves := interceptor_moves (D := fun _ => True) trivial (closed_all s) h
    exact hmoves.mono fun _ _ _ => .inl
  | provider p =>
    obtain ⟨-, rfl⟩ | ⟨v, hv, rfl⟩ | ⟨c, s₁, args, hc, hmoves, hfit, rfl⟩ :=
      provider_cases (fun _ => True) (fun _ _ => ⟨fun _ _ => trivial, closed_all s⟩) h
    · exact .refl
    · exact .single (.value (.inr ⟨p, ht, rfl, hv⟩))
    · have hdemand : Moves sig (TurnAllows ts) s s₁ := hmoves.mono fun _ _ _ => .inl
      exact hdemand.tail (.built (.inr ⟨p, ht, rfl, hc⟩) hfit)

theorem takeTurns_moves {ts all : List Turn} (hsub : ts ⊆ all)
    (h : takeTurns sig limit ts s = .ok s') : Moves sig (TurnAllows all) s s' := by
  induction ts generalizing s with
  | nil =>
    obtain rfl : s = s' := by simpa [takeTurns] using h
    exact .refl
  | cons t rest ih =>
    obtain ⟨s₁, hfirst, hrest⟩ := takeTurns_cons_ok.mp h
    have hhead := takeTurn_moves (hsub (by simp)) hfirst
    exact hhead.trans (ih (fun t ht => hsub (by simp [ht])) hrest)

theorem moves_next {P : Container → Key → Label → Prop} (h : Moves sig P s s') :
    s.next ≤ s'.next := by
  refine h.preserves (I := fun s' => s.next ≤ s'.next) ?_ le_rfl
  intro a b hmove ha
  cases hmove with
  | value => exact ha
  | built => exact ha.trans (Nat.le_succ _)

/-- An object stays where nothing else may be registered under its key. -/
theorem moves_keep {P : Container → Key → Label → Prop} {key : Key} {o : Obj} (h : Moves sig P s s')
    (hP : ∀ s l, s.instances key = some o → ¬P s key l) (hs : s.instances key = some o) :
    s'.instances key = some o := by
  refine h.preserves (I := fun s => s.instances key = some o) ?_ hs
  intro a b hmove ha
  cases hmove with
  | @value key' v allowed =>
    have hne : key ≠ key' := by
      rintro rfl
      exact hP a _ ha allowed
    rw [register_instances, Function.update_of_ne hne, ha]
  | @built key' c args allowed fit =>
    have hne : key ≠ key' := by
      rintro rfl
      exact hP a _ ha allowed
    rw [call_instances, Function.update_of_ne hne, ha]

/-- The turns without a provider of the key leave its object. -/
theorem takeTurns_keep {ts : List Turn} {key : Key} {o : Obj}
    (h : takeTurns sig limit ts s = .ok s')
    (hts : ∀ p, .provider p ∈ ts → p.provide ≠ key) (hs : s.instances key = some o) :
    s'.instances key = some o := by
  refine moves_keep (takeTurns_moves (List.Subset.refl ts) h) ?_ hs
  rintro a l ha (⟨-, hnone, -⟩ | ⟨p, hp, hkey, -⟩)
  · rw [ha] at hnone
    contradiction
  · exact hts p hp hkey

/-- The tokens of the providers among some turns. -/
def turnTokens (ts : List Turn) : List Key :=
  ts.filterMap fun
    | .provider p => some p.provide
    | .interceptor _ => none

theorem mem_turnTokens {ts : List Turn} {p : ProviderSpec} (h : .provider p ∈ ts) :
    p.provide ∈ turnTokens ts := List.mem_filterMap.mpr ⟨.provider p, h, rfl⟩

/-- After its turn a provider's own object is there, and stays. -/
theorem provider_registered {ts : List Turn} {p : ProviderSpec} {l : Label}
    (h : takeTurns sig limit ts s = .ok s') (hp : .provider p ∈ ts) (hl : registers p = some l)
    (hnodup : (turnTokens ts).Nodup) :
    ∃ o, s'.instances p.provide = some o ∧ o.label = l ∧
      ∀ id c args, o = .built id c args → s.next ≤ id := by
  induction ts generalizing s with
  | nil => simp at hp
  | cons t rest ih =>
    obtain ⟨s₁, hfirst, hrest⟩ := takeTurns_cons_ok.mp h
    obtain rfl | hp := List.mem_cons.mp hp
    · have hothers : ∀ q, .provider q ∈ rest → q.provide ≠ p.provide := by
        intro q hq heq
        have hnot : p.provide ∉ turnTokens rest := (List.nodup_cons.mp hnodup).1
        exact hnot (heq ▸ mem_turnTokens hq)
      obtain ⟨hnone, -⟩ | ⟨v, hv, rfl⟩ | ⟨c, s₂, args, hc, hmoves, hfit, rfl⟩ :=
        provider_cases (fun _ => True) (fun _ _ => ⟨fun _ _ => trivial, closed_all s⟩) hfirst
      · rw [hl] at hnone
        contradiction
      · refine ⟨.value v, takeTurns_keep hrest hothers (by simp), ?_, by simp⟩
        rw [hl, Option.some.injEq] at hv
        exact hv.symm
      · refine ⟨.built s₂.next c args, takeTurns_keep hrest hothers (by simp), ?_, ?_⟩
        · rw [hl, Option.some.injEq] at hc
          exact hc.symm
        · rintro id c' args' heq
          obtain ⟨rfl, -, -⟩ := Obj.built.inj heq
          exact moves_next hmoves
    · have hrestNodup : (turnTokens rest).Nodup := by
        cases t with
        | provider q => exact (List.nodup_cons.mp hnodup).2
        | interceptor i => exact hnodup
      obtain ⟨o, ho, hlabel, hid⟩ := ih hrest hp hrestNodup
      refine ⟨o, ho, hlabel, ?_⟩
      intro id c args heq
      exact (moves_next (takeTurn_moves (List.mem_singleton.mpr rfl) hfirst)).trans
        (hid id c args heq)

end Runs

section Stale

variable {sig : Signatures} {limit : Nat}

theorem obj_of_label {o : Obj} {c : Callable} (h : o.label = .of c) :
    ∃ id args, o = .built id c args := by
  cases o with
  | value v => simp [Obj.label] at h
  | built id c' args =>
    obtain rfl : c' = c := by simpa [Obj.label] using h
    exact ⟨id, args, rfl⟩

/-- What building a callable looks at is an argument of a part of the object. -/
theorem reach_part {R : Key → Label → Prop} {avail : Key → Prop} {s : Container} {key₀ key : Key}
    {o : Obj} {c : Callable} (ht : Typed sig R s)
    (hR : ∀ key l, R key l → ¬avail key → l = .of key.callable)
    (ho : s.instances key₀ = some o) (hc : o.label = .of c) (hreach : Reach sig avail c key) :
    ∃ id c' args, Part o (.built id c' args) ∧ ∃ x ∈ (sig.dependencies c').zip args,
      x.1.2 = key ∧ R key x.2.2.label := by
  have hparts := (ht key₀ o ho).2
  induction hreach with
  | @direct d dependency =>
    obtain ⟨id, args, rfl⟩ := obj_of_label hc
    have htyped := (hparts id c args (.self _)).2
    obtain ⟨a, ha⟩ := mem_zip_of_mem_left htyped dependency
    exact ⟨id, c, args, .self _, (d, a), ha, rfl, List.forall₂_zip htyped ha⟩
  | @through key d _ missing dependency ih =>
    obtain ⟨id, c', args, hpart, x, hx, rfl, hRx⟩ := ih
    obtain ⟨id', args', hobj⟩ := obj_of_label (hR _ _ hRx missing)
    have hpart' : Part o (.built id' x.1.2.callable args') := by
      rw [← hobj]
      exact hpart.trans (.arg (List.of_mem_zip hx).2 (.self _))
    have htyped := (hparts _ _ _ hpart').2
    obtain ⟨a, ha⟩ := mem_zip_of_mem_left htyped dependency
    exact ⟨id', _, args', hpart', (d, a), ha, rfl, List.forall₂_zip htyped ha⟩

/-- What may be registered before the turn of `q`: for its token nothing but what a call
returned, and for a key that is not provided its own callable. -/
def Untaken (providers : List Provider) (q : ProviderSpec) (key : Key) (l : Label) : Prop :=
  (¬Provided providers key → l = .of key.callable) ∧ (key = q.provide → ∃ c, l = .of c)

theorem untaken_onDemand {providers : List Provider} (q : ProviderSpec) (s : Container)
    (key : Key) (l : Label)
    (h : OnDemand (fun _ => True) s key l) : Untaken providers q key l := by
  obtain ⟨-, -, rfl⟩ := h
  exact ⟨fun _ => rfl, fun _ => ⟨_, rfl⟩⟩

theorem typed_before {providers : List Provider} {before : List Turn} {s : Container}
    {q : ProviderSpec}
    (h : takeTurns sig limit before {} = .ok s)
    (hprovided : ∀ x, .provider x ∈ before → Provided providers x.provide)
    (hbefore : ∀ x, .provider x ∈ before → x.provide ≠ q.provide) :
    Typed sig (Untaken providers q) s := by
  refine moves_typed (takeTurns_moves (List.Subset.refl before) h) ?_ (by simp [Typed])
  rintro a key l (ha | ⟨x, hx, rfl, -⟩)
  · exact untaken_onDemand q a key l ha
  · exact ⟨fun hnot => absurd (hprovided x hx) hnot, fun heq => absurd heq (hbefore x hx)⟩

/-- The turn of a provider of a class or factory. -/
theorem provider_built {s s' : Container} {p : ProviderSpec} {c : Callable}
    (h : takeTurn sig limit (.provider p) s = .ok s') (hp : gives p = some (.of c)) :
    ∃ s₁ args, Moves sig (OnDemand fun _ => True) s s₁ ∧ Fit s₁ (sig.dependencies c) args ∧
      s' = (s₁.call p.provide c args).2 := by
  obtain ⟨hnone, -⟩ | ⟨v, hv, -⟩ | ⟨c', s₁, args, hc', hmoves, hfit, rfl⟩ :=
    provider_cases (fun _ => True) (fun _ _ => ⟨fun _ _ => trivial, closed_all s⟩) h
  · simp [registers_of hp] at hnone
  · simp [registers_of hp] at hv
  · obtain rfl : c = c' := by simpa [registers_of hp] using hc'
    exact ⟨s₁, args, hmoves, hfit, rfl⟩

/-- No proper part of an object is the object. -/
theorem part_ne {o : Obj} {id : Nat} {c : Callable} {args : List (String × Obj)} {a : String × Obj}
    (hpart : Part o (.built id c args)) (ha : a ∈ args) : a.2 ≠ o := by
  rintro rfl
  have hsmall : sizeOf a.2 < sizeOf (Obj.built id c args) := arg_size ha
  have hle := hpart.size
  omega

/-- A provider that is filled before one it depends on holds, in some part, another object
than the container's for that token. -/
theorem stale {providers : List Provider} {before after : List Turn} {s : Container}
    {p q : ProviderSpec}
    {c : Callable} {l : Label} (h : takeTurns sig limit (before ++ .provider p :: after) {} = .ok s)
    (hnodup : (turnTokens (before ++ .provider p :: after)).Nodup)
    (hprovided : ∀ x, .provider x ∈ before ++ .provider p :: after → Provided providers x.provide)
    (hp : gives p = some (.of c)) (hreach : Reach sig (Provided providers) c q.provide)
    (hq : .provider q ∈ Turn.provider p :: after) (hl : registers q = some l)
    (hbefore : ∀ x, .provider x ∈ before → x.provide ≠ q.provide) :
    ∃ o id c' args, s.instances p.provide = some o ∧ Part o (.built id c' args) ∧
      ∃ x ∈ (sig.dependencies c').zip args, x.1.2 = q.provide ∧
        s.instances q.provide ≠ some x.2.2 := by
  obtain ⟨s₀, hfirst, hrest⟩ := takeTurns_append_ok.mp h
  obtain ⟨s₁, hturn, hlast⟩ := takeTurns_cons_ok.mp hrest
  have hsplit : (turnTokens before ++ p.provide :: turnTokens after).Nodup := by
    simpa [turnTokens] using hnodup
  have htail : (turnTokens (.provider p :: after)).Nodup := (List.nodup_append.mp hsplit).2.1
  have hafter : ∀ x, .provider x ∈ after → x.provide ≠ p.provide := by
    intro x hx heq
    exact (List.nodup_cons.mp htail).1 (heq ▸ mem_turnTokens hx)
  have htyped₀ := typed_before hfirst (fun x hx => hprovided x (by simp [hx])) hbefore
  obtain ⟨s₂, args, hmoves, hfit, rfl⟩ := provider_built hturn hp
  have hallowed : Untaken providers q p.provide (.of c) :=
    ⟨fun hnot => absurd (hprovided p (by simp)) hnot, fun _ => ⟨c, rfl⟩⟩
  have htyped₁ := typed_call (moves_typed hmoves (untaken_onDemand q) htyped₀) hallowed hfit
  have hobj : (s₂.call p.provide c args).2.instances p.provide =
      some (.built s₂.next c args) := by simp
  obtain ⟨id, c', args', hpart, x, hx, hkey, hlabel⟩ :=
    reach_part htyped₁ (fun _ _ h => h.1) hobj rfl hreach
  have hx' := (List.of_mem_zip hx).2
  refine ⟨_, id, c', args', takeTurns_keep hlast hafter hobj, hpart, x, hx, hkey, ?_⟩
  intro heq
  obtain hqp | hq := List.mem_cons.mp hq
  · obtain rfl : q = p := by simpa using hqp
    rw [takeTurns_keep hlast hafter hobj, Option.some.injEq] at heq
    exact part_ne hpart hx' heq.symm
  · -- the object of `q` is younger than the ones held
    obtain ⟨o, ho, -, hid⟩ := provider_registered hlast hq hl (List.nodup_cons.mp htail).2
    rw [heq, Option.some.injEq] at ho
    subst ho
    obtain ⟨cx, hcx⟩ := hlabel.2 rfl
    obtain ⟨idx, argsx, hxobj⟩ := obj_of_label hcx
    have hxpart : Part (.built s₂.next c args) (.built idx cx argsx) :=
      hpart.trans (.arg hx' (hxobj ▸ .self _))
    have hold := ((htyped₁ _ _ hobj).2 _ _ _ hxpart).1
    have hyoung := hid idx cx argsx hxobj
    omega

end Stale

section Necessity

variable {sig : Signatures} {limit : Nat} {providers listing : List Provider}
  {interceptors : List Callable}

theorem mem_turns {p : ProviderSpec} :
    .provider p ∈ turns providers interceptors ↔ p ∈ specs providers := by
  simp only [turns, fillTurns, List.mem_append, List.mem_map, List.mem_filter, Turn.provider.injEq,
    exists_eq_right, reduceCtorEq, and_false, exists_false, or_false, beq_iff_eq]
  constructor
  · rintro (⟨hp, -⟩ | ⟨hp, -⟩)
    · exact hp
    · exact hp
  · intro hp
    cases ha : p.afterInterceptors with
    | false => exact .inl ⟨hp, rfl⟩
    | true => exact .inr ⟨hp, rfl⟩

theorem turnTokens_fillTurns (afterInterceptors : Bool) :
    turnTokens (fillTurns providers afterInterceptors) =
      ((specs providers).filter fun p => p.afterInterceptors == afterInterceptors).map
        ProviderSpec.provide := by
  simp only [turnTokens, fillTurns, List.filterMap_map]
  exact congrFun (List.filterMap_eq_map (f := ProviderSpec.provide)) _

/-- The tokens of the turns are those of the providers. -/
theorem turnTokens_turns : (turnTokens (turns providers interceptors)).Perm
    ((specs providers).map ProviderSpec.provide) := by
  have hnone : turnTokens (interceptors.map .interceptor) = [] := by
    simp [turnTokens]
  have hsplit : turnTokens (turns providers interceptors) =
      turnTokens (fillTurns providers false) ++ turnTokens (fillTurns providers true) := by
    have happend : ∀ a b : List Turn, turnTokens (a ++ b) = turnTokens a ++ turnTokens b := by
      intro a b
      simp [turnTokens]
    rw [turns, happend, happend, hnone, List.append_nil]
  rw [hsplit, turnTokens_fillTurns, turnTokens_fillTurns, ← List.map_append]
  apply List.Perm.map
  have hpart :=
    List.filter_append_perm (fun p : ProviderSpec => p.afterInterceptors == false) (specs providers)
  refine List.Perm.trans (List.Perm.of_eq ?_) hpart
  congr 2
  funext p
  cases p.afterInterceptors <;> rfl

theorem specs_perm (h : listing.Perm providers) : (specs listing).Perm (specs providers) :=
  h.filterMap _

theorem provided_perm (h : listing.Perm providers) : Provided listing = Provided providers := by
  funext key
  apply propext
  unfold Provided
  simp only [(specs_perm h).mem_iff]

theorem turnTokens_nodup (hdistinct : ((specs providers).map ProviderSpec.provide).Nodup)
    (h : listing.Perm providers) : (turnTokens (turns listing interceptors)).Nodup := by
  have hturns : (turnTokens (turns listing interceptors)).Perm
      ((specs listing).map ProviderSpec.provide) := turnTokens_turns
  have hperm := hturns.trans ((specs_perm h).map ProviderSpec.provide)
  exact hperm.symm.nodup hdistinct

theorem spec_unique (hdistinct : ((specs providers).map ProviderSpec.provide).Nodup)
    {p q : ProviderSpec}
    (hp : p ∈ specs providers) (hq : q ∈ specs providers) (h : p.provide = q.provide) : p = q :=
  List.inj_on_of_nodup_map hdistinct hp hq h

/-- A value that is not true is passed over: the container then builds something. -/
theorem truthy_of_wired (hdistinct : ((specs providers).map ProviderSpec.provide).Nodup)
    (hplain : ∀ t, .plain t ∉ providers) {s : Container}
    (hstart : startContainer sig limit providers interceptors = .ok s)
    (hw : Wired sig limit providers s)
    {p : ProviderSpec} (hp : p ∈ specs providers) {v : Value} (hv : p.useValue = some v) :
    v.truthy = true := by
  by_contra hfalse
  let R : Key → Label → Prop := fun key l => key = p.provide → ∃ c, l = .of c
  have hskipped : ∀ l, registers p = some l → ∃ c, l = .of c := by
    intro l hl
    have hpassed : Option.filter Value.truthy (some v) = none := by simp [Option.filter, hfalse]
    unfold registers at hl
    simp only [hv, hpassed, Option.map_eq_some_iff] at hl
    obtain ⟨c, -, rfl⟩ := hl
    exact ⟨c, rfl⟩
  have hdemand : ∀ s key l, OnDemand (fun _ => True) s key l → R key l := by
    rintro s key l ⟨-, -, rfl⟩ -
    exact ⟨_, rfl⟩
  rw [startContainer_turns hplain] at hstart
  have htyped : Typed sig R s := by
    refine moves_typed (takeTurns_moves (List.Subset.refl _) hstart) ?_ (by simp [Typed])
    rintro a key l (ha | ⟨q, hq, rfl, hl⟩)
    · exact hdemand a key l ha
    · intro heq
      obtain rfl := spec_unique hdistinct (mem_turns.mp hq) hp heq
      exact hskipped l hl
  obtain ⟨o, ho, hgives⟩ := hw.returned p hp
  cases hg : getOrRegister sig limit p.provide s with
  | error e => simp [hg, Except.map] at ho
  | ok r =>
    obtain ⟨o', s'⟩ := r
    obtain rfl : o' = o := by simpa [hg, Except.map] using ho
    obtain ⟨hmoves, hobj⟩ := getOrRegister_resolves limit _ _ _ _ hg trivial (closed_all s)
    obtain ⟨c, hlabel⟩ := (moves_typed hmoves hdemand htyped p.provide _ hobj).1 rfl
    simp [gives, hv, hlabel] at hgives

/-- A provider listed first has its turn before every other one of its fill, and before
the second fill. -/
theorem turns_first (interceptors : List Callable) {rest : List Provider} {p q : ProviderSpec}
    (hdistinct : ((specs (.spec p :: rest)).map ProviderSpec.provide).Nodup)
    (hq : q ∈ specs (.spec p :: rest))
    (hnot : ¬(p.afterInterceptors = true ∧ q.afterInterceptors = false)) :
    ∃ before after, turns (.spec p :: rest) interceptors = before ++ .provider p :: after ∧
      ∀ x, .provider x ∈ before → x.provide ≠ q.provide := by
  cases hp : p.afterInterceptors with
  | false =>
    refine ⟨[], fillTurns rest false ++ interceptors.map .interceptor ++ fillTurns
      (.spec p :: rest) true, ?_,
      by simp⟩
    have hfill : fillTurns (.spec p :: rest) false = .provider p :: fillTurns rest false := by
      simp [fillTurns, specs, hp]
    rw [turns, hfill]
    rfl
  | true =>
    have hqa : q.afterInterceptors = true := by simpa [hp] using hnot
    refine ⟨fillTurns (.spec p :: rest) false ++ interceptors.map .interceptor,
      fillTurns rest true, ?_, ?_⟩
    · have hfill : fillTurns (.spec p :: rest) true = .provider p :: fillTurns rest true := by
        simp [fillTurns, specs, hp]
      rw [turns, hfill]
    · intro x hx heq
      have hx' : x ∈ specs (.spec p :: rest) ∧ x.afterInterceptors = false := by
        simpa [fillTurns] using hx
      rw [spec_unique hdistinct hx'.1 hq heq, hqa] at hx'
      exact absurd hx'.2 (by simp)

theorem mem_specs {p : ProviderSpec} : p ∈ specs providers ↔ .spec p ∈ providers := by
  unfold specs
  rw [List.mem_filterMap]
  constructor
  · rintro ⟨x, hx, heq⟩
    cases x with
    | plain t => simp at heq
    | spec p' =>
      obtain rfl : p' = p := by simpa using heq
      exact hx
  · intro hp
    exact ⟨.spec p, hp, rfl⟩

/-- A provider listed first is not wired with a token that has its turn later. -/
theorem not_wired_of_reach {rest : List Provider} {p q : ProviderSpec} {c : Callable} {l : Label}
    {s : Container} (hdistinct : ((specs (.spec p :: rest)).map ProviderSpec.provide).Nodup)
    (hplain : ∀ t, .plain t ∉ Provider.spec p :: rest)
    (hstart : startContainer sig limit (.spec p :: rest) interceptors = .ok s)
    (hgives : gives p = some (.of c)) (hq : q ∈ specs (.spec p :: rest)) (hl : registers q = some l)
    (hreach : Reach sig (Provided (.spec p :: rest)) c q.provide)
    (hnot : ¬(p.afterInterceptors = true ∧ q.afterInterceptors = false)) :
    ¬Wired sig limit (.spec p :: rest) s := by
  intro hw
  obtain ⟨before, after, hturns, hbefore⟩ := turns_first interceptors hdistinct hq hnot
  rw [startContainer_turns hplain, hturns] at hstart
  have hqLate : .provider q ∈ Turn.provider p :: after := by
    have hqTurn : .provider q ∈ before ++ .provider p :: after := hturns ▸ mem_turns.mpr hq
    obtain hfirst | hlate := List.mem_append.mp hqTurn
    · exact absurd rfl (hbefore q hfirst)
    · exact hlate
  have hprovided : ∀ x, .provider x ∈ before ++ .provider p :: after →
      Provided (.spec p :: rest) x.provide := by
    intro x hx
    rw [← hturns] at hx
    exact ⟨x, mem_turns.mp hx, rfl⟩
  have hnodup := hturns ▸ turnTokens_nodup hdistinct (List.Perm.refl _)
  obtain ⟨o, id, c', args, ho, hpart, x, hx, hkey, hne⟩ :=
    stale hstart hnodup hprovided hgives hreach hqLate hl hbefore
  apply hne
  rw [← hkey]
  exact hw.held p (mem_specs.mpr (by simp)) o ho id c' args hpart x hx ⟨q, hq, hkey.symm⟩

/-- If no listing makes a difference, the providers are in layers: a token below another could
come first. -/
theorem layered_of_orderFree (hc : Complete sig providers interceptors)
    (h : OrderFree sig providers interceptors) : Layered sig providers := by
  obtain ⟨enough, h⟩ := h
  obtain ⟨hgood, -⟩ := h enough le_rfl
  obtain ⟨s, hstart, hw⟩ := hgood providers (List.Perm.refl _)
  have hplain : ∀ t, .plain t ∉ providers :=
    fun t ht => startContainer_plain ht interceptors s hstart
  have htruthy : ∀ p ∈ specs providers, ∀ v, p.useValue = some v → v.truthy = true :=
    fun p hp v hv => truthy_of_wired hc.distinct hplain hstart hw hp hv
  refine ⟨hplain, htruthy, ?_⟩
  intro p hp c hgives q hq hreach
  by_contra hnot
  -- list the provider first
  have hperm : (.spec p :: providers.erase (.spec p)).Perm providers :=
    (List.perm_cons_erase (mem_specs.mp hp)).symm
  obtain ⟨s', hstart', hw'⟩ := hgood _ hperm
  have hdistinct := ((specs_perm hperm).map ProviderSpec.provide).nodup_iff.mpr hc.distinct
  obtain ⟨l, hl⟩ : ∃ l, registers q = some l := by
    rw [registers_truthy (htruthy q hq)]
    exact Option.ne_none_iff_exists'.mp (hc.given q hq)
  rw [← provided_perm hperm] at hreach
  exact not_wired_of_reach hdistinct (fun t ht => hplain t (hperm.mem_iff.mp ht)) hstart' hgives
    ((specs_perm hperm).mem_iff.mpr hq) hl hreach hnot hw'

end Necessity

end ProviderOrder

import Jararaca.ProviderOrder

/-!
# Layered providers

The other half of the order of the providers: where no provider depends on a token that
may be filled later, the start comes to an end for every listing, and the container is
coherent: each object that was built for a provider holds the objects the container has.
-/
namespace ProviderLayers

open Messages Containers ProviderOrder

section Building

variable {sig : Signatures} {avail : Key → Prop}

theorem reach_prepend {c : Callable} {d : String × Key} {key : Key} (hd : d ∈ sig.dependencies c)
    (hmissing : ¬avail d.2) (h : Reach sig avail d.2.callable key) : Reach sig avail c key := by
  induction h with
  | direct dependency => exact .through (.direct hd) hmissing dependency
  | through _ missing dependency ih => exact .through ih missing dependency

/-- One bound for all of a list. -/
theorem exists_bound {α : Type} {l : List α} {P : α → Nat → Prop}
    (h : ∀ x ∈ l, ∃ enough, ∀ n, enough ≤ n → P x n) :
    ∃ enough, ∀ n, enough ≤ n → ∀ x ∈ l, P x n := by
  induction l with
  | nil => exact ⟨0, by simp⟩
  | cons x l ih =>
    obtain ⟨a, ha⟩ := h x (by simp)
    obtain ⟨b, hb⟩ := ih fun y hy => h y (by simp [hy])
    refine ⟨max a b, ?_⟩
    intro n hn y hy
    obtain rfl | hy := List.mem_cons.mp hy
    · exact ha n (by omega)
    · exact hb n (by omega) y hy

/-- What `avail` has to offer to a callable is in the container. -/
def Offered (sig : Signatures) (avail : Key → Prop) (c : Callable) (s : Container) : Prop :=
  ∀ key, avail key → Reach sig avail c key → (s.instances key).isSome = true

/-- With this recursion limit the call comes to an end, wherever it can be made. -/
def Builds (sig : Signatures) (avail : Key → Prop) (c : Callable) (limit : Nat) : Prop :=
  ∀ s bindTo, Offered sig avail c s →
    ∃ o s', getAndRegister sig (getOrRegister sig limit) c bindTo s = .ok (o, s')

theorem getOrRegister_builds {limit : Nat} {key : Key} {s : Container}
    (h : s.instances key = none →
      Builds sig avail key.callable limit ∧ Offered sig avail key.callable s) :
    ∃ o s', getOrRegister sig (limit + 1) key s = .ok (o, s') := by
  rw [getOrRegister]
  cases hk : s.instances key with
  | some o => exact ⟨o, s, rfl⟩
  | none =>
    obtain ⟨hbuilds, hoffered⟩ := h hk
    exact hbuilds s key hoffered

/-- The arguments of a callable are built where those are that are not offered. -/
theorem evaluate_builds {limit : Nat} {c : Callable}
    (hdeps : ∀ d ∈ sig.dependencies c, ¬avail d.2 → Builds sig avail d.2.callable limit)
    {deps : List (String × Key)} (hsub : deps ⊆ sig.dependencies c) {s : Container}
    (hs : Offered sig avail c s) :
    ∃ args s', evaluate (getOrRegister sig (limit + 1)) deps s = .ok (args, s') := by
  induction deps generalizing s with
  | nil => exact ⟨[], s, rfl⟩
  | cons d rest ih =>
    obtain ⟨name, key⟩ := d
    have hd : (name, key) ∈ sig.dependencies c := hsub (by simp)
    have hkey : s.instances key = none →
        Builds sig avail key.callable limit ∧ Offered sig avail key.callable s := by
      intro hnone
      have hmissing : ¬avail key := by
        intro havail
        have hsome := hs key havail (.direct hd)
        simp [hnone] at hsome
      refine ⟨hdeps (name, key) hd hmissing, ?_⟩
      intro key' havail hreach
      exact hs key' havail (reach_prepend hd hmissing hreach)
    obtain ⟨o, s₁, hfirst⟩ := getOrRegister_builds hkey
    have hmoves := (getOrRegister_resolves (limit + 1) _ _ _ _ hfirst trivial (closed_all s)).1
    have hs₁ : Offered sig avail c s₁ := by
      intro key' havail hreach
      obtain ⟨o', ho'⟩ := Option.isSome_iff_exists.mp (hs key' havail hreach)
      simp [hmoves.keeps ho']
    obtain ⟨args, s₂, hrest⟩ := ih (fun d hd => hsub (by simp [hd])) hs₁
    exact ⟨(name, o) :: args, s₂, by simp [evaluate, hfirst, hrest]⟩

/-- A buildable callable is built under every high enough recursion limit. -/
theorem buildable_builds {c : Callable} (h : Buildable sig avail c) :
    ∃ enough, ∀ limit, enough ≤ limit → Builds sig avail c limit := by
  induction h with
  | @intro c succeeds dependencies ih =>
    have hall : ∀ d ∈ sig.dependencies c, ∃ enough, ∀ limit, enough ≤ limit →
        (¬avail d.2 → Builds sig avail d.2.callable limit) := by
      intro d hd
      by_cases havail : avail d.2
      · exact ⟨0, fun _ _ hnot => absurd havail hnot⟩
      · obtain ⟨enough, henough⟩ := ih d hd havail
        exact ⟨enough, fun limit hlimit _ => henough limit hlimit⟩
    obtain ⟨enough, hdeps⟩ := exists_bound hall
    refine ⟨enough + 1, ?_⟩
    intro limit hlimit s bindTo hs
    obtain ⟨l, rfl⟩ : ∃ l, limit = l + 1 := ⟨limit - 1, by omega⟩
    obtain ⟨args, s', he⟩ := evaluate_builds (hdeps l (by omega)) (List.Subset.refl _) hs
    exact ⟨_, _, by simp [getAndRegister, he, succeeds]; rfl⟩

end Building

/-- Keys that are not provided and that building some provider looks at. -/
def Owned (sig : Signatures) (providers : List Provider) (key : Key) : Prop :=
  ¬Provided providers key ∧ ∃ p ∈ specs providers, ∃ c, gives p = some (.of c) ∧
    Reach sig (Provided providers) c key

/-- Arguments that are the objects of their keys, none of them one of a provider that is still
to come. -/
def Settled (providers : List Provider) (Done : ProviderSpec → Prop) (instances : Key → Option Obj)
    (dependencies : List (String × Key)) (args : List (String × Obj)) : Prop :=
  List.Forall₂ (fun d a => instances d.2 = some a.2 ∧
    (Provided providers d.2 → ∃ q, Done q ∧ q.provide = d.2)) dependencies args

/-- The container while the providers of `Done` had their turns: their objects are there,
and these and the ones built for providers hold the container's objects, none of them one
of a provider that is still to come. -/
structure Coherent (sig : Signatures) (providers : List Provider) (Done : ProviderSpec → Prop)
    (s : Container) : Prop where
  filled : ∀ p, Done p → ∃ o, s.instances p.provide = some o ∧ gives p = some o.label
  owned : ∀ key o, Owned sig providers key → s.instances key = some o → o.label = .of key.callable
  settled : ∀ key o, s.instances key = some o →
    (Owned sig providers key ∨ ∃ p, Done p ∧ p.provide = key) → ∀ id c args, o = .built id c args →
      Settled providers Done s.instances (sig.dependencies c) args

/-- The provided tokens a callable depends on had their turns. -/
def Ready (sig : Signatures) (providers : List Provider) (Done : ProviderSpec → Prop)
    (c : Callable) : Prop :=
  ∀ d ∈ sig.dependencies c, Provided providers d.2 → ∃ q, Done q ∧ q.provide = d.2

section Coherence

variable {sig : Signatures} {providers : List Provider} {Done : ProviderSpec → Prop} {s : Container}

theorem fit_ready {c : Callable} {args : List (String × Obj)}
    (hfit : Fit s (sig.dependencies c) args)
    (hready : Ready sig providers Done c) :
    Settled providers Done s.instances (sig.dependencies c) args := by
  have hboth := (List.forall₂_and_left _ _).mpr ⟨hready, hfit⟩
  refine List.Forall₂.imp ?_ hboth
  rintro d a ⟨hprovided, -, hobj⟩
  exact ⟨hobj, hprovided⟩

/-- Arguments stay right when a key that is none of them gets an object. -/
theorem settled_update {Done' : ProviderSpec → Prop} {key : Key} {o : Obj}
    {deps : List (String × Key)}
    {args : List (String × Obj)}
    (h : Settled providers Done s.instances deps args)
    (hkey : s.instances key = none ∨ (Provided providers key ∧ ∀ q, Done q → q.provide ≠ key))
    (hDone : ∀ q, Done q → Done' q) :
    Settled providers Done' (Function.update s.instances key (some o)) deps args := by
  refine List.Forall₂.imp ?_ h
  rintro d a ⟨hobj, hprovided⟩
  have hne : d.2 ≠ key := by
    rintro rfl
    obtain hnone | ⟨hprov, hnot⟩ := hkey
    · rw [hobj] at hnone
      contradiction
    · obtain ⟨q, hq, heq⟩ := hprovided hprov
      exact hnot q hq heq
  refine ⟨by rw [Function.update_of_ne hne, hobj], ?_⟩
  intro hprov
  obtain ⟨q, hq, heq⟩ := hprovided hprov
  exact ⟨q, hDone q hq, heq⟩

/-- A construction on demand keeps the container coherent, if the provided tokens below it had
their turns. -/
theorem Coherent.demand (h : Coherent sig providers Done s) {key : Key} {args : List (String × Obj)}
    (habsent : s.instances key = none) (hfit : Fit s (sig.dependencies key.callable) args)
    (hready : Owned sig providers key → Ready sig providers Done key.callable) :
    Coherent sig providers Done (s.call key key.callable args).2 where
  filled := by
    intro p hp
    obtain ⟨o, ho, hlabel⟩ := h.filled p hp
    have hne : p.provide ≠ key := by
      rintro rfl
      rw [ho] at habsent
      contradiction
    exact ⟨o, by rw [call_instances, Function.update_of_ne hne, ho], hlabel⟩
  owned := by
    intro key' o howned ho
    rw [call_instances] at ho
    by_cases hk : key' = key
    · subst hk
      rw [Function.update_self, Option.some.injEq] at ho
      subst ho
      rfl
    · rw [Function.update_of_ne hk] at ho
      exact h.owned key' o howned ho
  settled := by
    intro key' o ho hwhich n c args' heq
    rw [call_instances] at ho ⊢
    by_cases hk : key' = key
    · subst hk
      rw [Function.update_self, Option.some.injEq] at ho
      subst ho
      obtain ⟨-, rfl, rfl⟩ := Obj.built.inj heq
      have howned : Owned sig providers key' := by
        obtain howned | ⟨p, hp, hpk⟩ := hwhich
        · exact howned
        · obtain ⟨o, ho, -⟩ := h.filled p hp
          rw [hpk, habsent] at ho
          contradiction
      exact settled_update (fit_ready hfit (hready howned)) (.inl habsent) fun _ => id
    · rw [Function.update_of_ne hk] at ho
      exact settled_update (h.settled key' o ho hwhich n c args' heq) (.inl habsent) fun _ => id

/-- The registration of a provider that is due. -/
theorem Coherent.provide (h : Coherent sig providers Done s) {s' : Container}
    {p : ProviderSpec} {o : Obj}
    (hs' : s'.instances = Function.update s.instances p.provide (some o))
    (hprovided : Provided providers p.provide) (hnew : ∀ q, Done q → q.provide ≠ p.provide)
    (hgives : gives p = some o.label)
    (hready : ∀ id c args, o = .built id c args →
      Fit s (sig.dependencies c) args ∧ Ready sig providers Done c) :
    Coherent sig providers (fun q => q = p ∨ Done q) s' where
  filled := by
    rintro q (rfl | hq)
    · exact ⟨o, by simp [hs'], hgives⟩
    · obtain ⟨o', ho', hlabel⟩ := h.filled q hq
      exact ⟨o', by simp [hs', Function.update_of_ne (hnew q hq), ho'], hlabel⟩
  owned := by
    intro key o' howned ho'
    have hne : key ≠ p.provide := by
      rintro rfl
      exact howned.1 hprovided
    rw [hs', Function.update_of_ne hne] at ho'
    exact h.owned key o' howned ho'
  settled := by
    intro key o' ho' hwhich n c args heq
    rw [hs'] at ho' ⊢
    by_cases hk : key = p.provide
    · subst hk
      rw [Function.update_self, Option.some.injEq] at ho'
      subst ho'
      obtain ⟨hfit, hr⟩ := hready n c args heq
      exact settled_update (fit_ready hfit hr) (.inr ⟨hprovided, hnew⟩) fun _ => .inr
    · rw [Function.update_of_ne hk] at ho'
      have hbefore : Owned sig providers key ∨ ∃ q, Done q ∧ q.provide = key := by
        obtain howned | ⟨q, rfl | hq, hqk⟩ := hwhich
        · exact .inl howned
        · exact absurd hqk.symm hk
        · exact .inr ⟨q, hq, hqk⟩
      exact settled_update (h.settled key o' ho' hbefore n c args heq) (.inr ⟨hprovided, hnew⟩)
        fun _ => .inr

/-- So do any number of them. -/
theorem Coherent.moved (h : Coherent sig providers Done s) {D : Key → Prop} {s' : Container}
    (hmoves : Moves sig (OnDemand D) s s')
    (hready : ∀ key, D key → Owned sig providers key → Ready sig providers Done key.callable) :
    Coherent sig providers Done s' := by
  refine hmoves.preserves ?_ h
  intro a b hmove ha
  cases hmove with
  | value allowed => exact absurd allowed.2.2 (by simp)
  | @built key c args allowed fit =>
    obtain ⟨hD, habsent, hl⟩ := allowed
    obtain rfl : c = key.callable := by simpa using hl
    exact ha.demand habsent fit (hready key hD)

end Coherence

section Sufficiency

variable {sig : Signatures} {limit : Nat} {providers : List Provider} {Done : ProviderSpec → Prop}
  {s : Container}

/-- What building a provider looks at among the tokens had its turn. -/
def Due (sig : Signatures) (providers : List Provider) (Done : ProviderSpec → Prop)
    (p : ProviderSpec) : Prop :=
  ∀ c, gives p = some (.of c) → ∀ key, Reach sig (Provided providers) c key →
    Provided providers key →
    ∃ q, Done q ∧ q.provide = key

theorem Coherent.present (h : Coherent sig providers Done s) {key : Key}
    (hkey : ∃ q, Done q ∧ q.provide = key) : (s.instances key).isSome = true := by
  obtain ⟨q, hq, rfl⟩ := hkey
  obtain ⟨o, ho, -⟩ := h.filled q hq
  simp [ho]

/-- The turn of a provider that is due. -/
theorem provider_turn (h : Coherent sig providers Done s) {p : ProviderSpec}
    (hp : p ∈ specs providers)
    (hregisters : registers p = gives p) (hgiven : gives p ≠ none) (hdue : Due sig providers Done p)
    (hnew : ∀ q, Done q → q.provide ≠ p.provide)
    (hbuilds : ∀ c, gives p = some (.of c) → Builds sig (Provided providers) c limit) :
    ∃ s', takeTurn sig limit (.provider p) s = .ok s' ∧
      Coherent sig providers (fun q => q = p ∨ Done q) s' := by
  have hprovided : Provided providers p.provide := ⟨p, hp, rfl⟩
  rw [takeTurn, fillOne_eq, hregisters]
  cases hg : gives p with
  | none => exact absurd hg hgiven
  | some l =>
    cases l with
    | value v => exact ⟨_, rfl, h.provide rfl hprovided hnew (by simp [hg, Obj.label]) (by simp)⟩
    | of c =>
      have hreach := hdue c hg
      have hoffered : Offered sig (Provided providers) c s := by
        intro key havail hr
        exact h.present (hreach key hr havail)
      obtain ⟨o, s', hbuilt⟩ := hbuilds c hg s p.provide hoffered
      have hclosed : Closed sig (Reach sig (Provided providers) c) s := by
        intro key hr hnone d hd
        refine .through hr ?_ hd
        intro havail
        have hsome := h.present (hreach key hr havail)
        simp [hnone] at hsome
      obtain ⟨s₁, args, hmoves, hfit, -, rfl⟩ :=
        getAndRegister_moves hbuilt (fun d hd => .direct hd) hclosed
      have hs₁ : Coherent sig providers Done s₁ := by
        refine h.moved hmoves ?_
        intro key hr howned d hd hprov
        exact hreach d.2 (.through hr howned.1 hd) hprov
      refine ⟨_, by simp [hbuilt, Except.map]; rfl, ?_⟩
      refine hs₁.provide (o := .built s₁.next c args) rfl hprovided hnew
        (by simp [hg, Obj.label]) ?_
      intro id c' args' heq
      obtain ⟨-, rfl, rfl⟩ := Obj.built.inj heq
      exact ⟨hfit, fun d hd hprov => hreach d.2 (.direct hd) hprov⟩

/-- The providers take their turns one after the other, each where it is due. -/
theorem providers_turns {ps : List ProviderSpec} (h : Coherent sig providers Done s)
    (hps : ∀ p ∈ ps, p ∈ specs providers ∧ registers p = gives p ∧ gives p ≠ none ∧
      Due sig providers Done p ∧ ∀ c, gives p = some (.of c) →
        Builds sig (Provided providers) c limit)
    (hnodup : (ps.map ProviderSpec.provide).Nodup)
    (hnew : ∀ p ∈ ps, ∀ q, Done q → q.provide ≠ p.provide) :
    ∃ s', takeTurns sig limit (ps.map .provider) s = .ok s' ∧
      Coherent sig providers (fun q => q ∈ ps ∨ Done q) s' := by
  induction ps generalizing s Done with
  | nil => exact ⟨s, rfl, by simpa using h⟩
  | cons p ps ih =>
    obtain ⟨hnot, hrest⟩ := List.nodup_cons.mp hnodup
    obtain ⟨hp, hregisters, hgiven, hdue, hbuilds⟩ := hps p (by simp)
    obtain ⟨s₁, hturn, hs₁⟩ := provider_turn h hp hregisters hgiven hdue (hnew p (by simp)) hbuilds
    have hlater : ∀ p' ∈ ps, p' ∈ specs providers ∧ registers p' = gives p' ∧ gives p' ≠ none ∧
        Due sig providers (fun q => q = p ∨ Done q) p' ∧
        ∀ c, gives p' = some (.of c) → Builds sig (Provided providers) c limit := by
      intro p' hp'
      obtain ⟨hmem, hr, hg, hd, hb⟩ := hps p' (by simp [hp'])
      refine ⟨hmem, hr, hg, ?_, hb⟩
      intro c hc key hreach hprov
      obtain ⟨q, hq, heq⟩ := hd c hc key hreach hprov
      exact ⟨q, .inr hq, heq⟩
    have hnew' : ∀ p' ∈ ps, ∀ q, q = p ∨ Done q → q.provide ≠ p'.provide := by
      rintro p' hp' q (rfl | hq)
      · intro heq
        exact hnot (heq ▸ List.mem_map_of_mem hp')
      · exact hnew p' (by simp [hp']) q hq
    obtain ⟨s₂, hturns, hs₂⟩ := ih hs₁ hlater hrest hnew'
    refine ⟨s₂, takeTurns_cons_ok.mpr ⟨s₁, hturn, hturns⟩, ?_⟩
    have hsame : (fun q => q ∈ ps ∨ q = p ∨ Done q) = fun q => q ∈ p :: ps ∨ Done q := by
      funext q
      simp only [List.mem_cons, or_assoc, or_left_comm]
    rwa [hsame] at hs₂

/-- Once the first fill is done, what is built for providers finds its tokens. -/
theorem owned_ready (hl : Layered sig providers)
    (hbefore : ∀ q ∈ specs providers, q.afterInterceptors = false → Done q) {key : Key}
    (howned : Owned sig providers key) : Ready sig providers Done key.callable := by
  obtain ⟨hnot, p, hp, c, hc, hreach⟩ := howned
  rintro d hd ⟨q, hq, heq⟩
  have hreached : Reach sig (Provided providers) c q.provide := by
    rw [heq]
    exact .through hreach hnot hd
  exact ⟨q, hbefore q hq (hl.apart p hp c hc q hq hreached).2, heq⟩

/-- The interceptors take theirs, from what is provided before them. -/
theorem interceptors_turns (hl : Layered sig providers)
    (hbefore : ∀ q ∈ specs providers, q.afterInterceptors = false → Done q)
    {interceptors : List Callable}
    (hbuilds : ∀ i ∈ interceptors, ¬ProvidedBefore providers (.type i) →
      Builds sig (ProvidedBefore providers) i limit) (h : Coherent sig providers Done s) :
    ∃ s', takeTurns sig (limit + 1) (interceptors.map .interceptor) s = .ok s' ∧
      Coherent sig providers Done s' := by
  have hpresent : ∀ {s}, Coherent sig providers Done s → ∀ key, ProvidedBefore providers key →
      (s.instances key).isSome = true := by
    rintro s h key ⟨q, hq, heq, hfirst⟩
    exact h.present ⟨q, hbefore q hq hfirst, heq⟩
  induction interceptors generalizing s with
  | nil => exact ⟨s, rfl, h⟩
  | cons i rest ih =>
    have hkey : s.instances (.type i) = none →
        Builds sig (ProvidedBefore providers) (Key.type i).callable limit ∧
          Offered sig (ProvidedBefore providers) (Key.type i).callable s := by
      intro hnone
      refine ⟨hbuilds i (by simp) ?_, fun key havail _ => hpresent h key havail⟩
      intro havail
      have hsome := hpresent h _ havail
      simp [hnone] at hsome
    obtain ⟨o, s₁, hfirst⟩ := getOrRegister_builds hkey
    have hturn : takeTurn sig (limit + 1) (.interceptor i) s = .ok s₁ := by
      simp [takeTurn, hfirst, Except.map]
    have hs₁ : Coherent sig providers Done s₁ :=
      h.moved (interceptor_moves (D := fun _ => True) trivial (closed_all s) hturn)
        fun key _ howned => owned_ready hl hbefore howned
    obtain ⟨s₂, hrest, hs₂⟩ := ih (fun j hj => hbuilds j (by simp [hj])) hs₁
    exact ⟨s₂, takeTurns_cons_ok.mpr ⟨s₁, hturn, hrest⟩, hs₂⟩

end Sufficiency

section Start

variable {sig : Signatures} {limit : Nat} {providers listing : List Provider}
  {interceptors : List Callable} {Done : ProviderSpec → Prop} {s : Container}

/-- A recursion limit that is enough for the start. -/
structure Roomy (sig : Signatures) (providers : List Provider) (interceptors : List Callable)
    (limit : Nat) :
    Prop where
  forProviders : ∀ p ∈ specs providers, ∀ c, gives p = some (.of c) →
    Builds sig (Provided providers) c (limit + 1)
  forInterceptors : ∀ i ∈ interceptors, ¬ProvidedBefore providers (.type i) →
    Builds sig (ProvidedBefore providers) i limit

/-- Some recursion limit is enough for the start. -/
theorem exists_roomy (hc : Complete sig providers interceptors) :
    ∃ enough, ∀ limit, enough ≤ limit → Roomy sig providers interceptors limit := by
  have hspecs : ∀ p ∈ specs providers, ∃ enough, ∀ limit, enough ≤ limit →
      ∀ c, gives p = some (.of c) → Builds sig (Provided providers) c limit := by
    intro p hp
    by_cases hg : ∃ c, gives p = some (.of c)
    · obtain ⟨c, hg⟩ := hg
      obtain ⟨enough, henough⟩ := buildable_builds (hc.buildable p hp c hg)
      refine ⟨enough, ?_⟩
      intro limit hlimit c' hc'
      obtain rfl : c = c' := by simpa [hg] using hc'
      exact henough limit hlimit
    · exact ⟨0, fun _ _ c hc => absurd ⟨c, hc⟩ hg⟩
  have hinterceptors : ∀ i ∈ interceptors, ∃ enough, ∀ limit, enough ≤ limit →
      ¬ProvidedBefore providers (.type i) → Builds sig (ProvidedBefore providers) i limit := by
    intro i hi
    by_cases hbefore : ProvidedBefore providers (.type i)
    · exact ⟨0, fun _ _ hnot => absurd hbefore hnot⟩
    · obtain ⟨enough, henough⟩ := buildable_builds (hc.interceptors i hi hbefore)
      exact ⟨enough, fun limit hlimit _ => henough limit hlimit⟩
  obtain ⟨a, ha⟩ := exists_bound hspecs
  obtain ⟨b, hb⟩ := exists_bound hinterceptors
  refine ⟨max a b, ?_⟩
  intro limit hlimit
  exact ⟨ha (limit + 1) (by omega), hb limit (by omega)⟩

theorem coherent_empty : Coherent sig providers (fun _ => False) {} where
  filled := by simp
  owned := by
    intro key o _ ho
    simp at ho
  settled := by
    intro key o ho
    simp at ho

theorem due_of_layered (hl : Layered sig providers) {p : ProviderSpec} (hp : p ∈ specs providers)
    (hbefore : p.afterInterceptors = true → ∀ q ∈ specs providers,
      q.afterInterceptors = false → Done q) :
    Due sig providers Done p := by
  rintro c hc key hreach ⟨q, hq, rfl⟩
  obtain ⟨hafter, hfirst⟩ := hl.apart p hp c hc q hq hreach
  exact ⟨q, hbefore hafter q hq hfirst, rfl⟩

/-- One of the two fills of the start, in any order of the providers. -/
theorem fill_turns (hl : Layered sig providers) (hc : Complete sig providers interceptors)
    (hroom : Roomy sig providers interceptors limit) (hperm : listing.Perm providers)
    (afterInterceptors : Bool) (h : Coherent sig providers Done s)
    (hdone : ∀ q, Done q → q ∈ specs providers ∧ q.afterInterceptors ≠ afterInterceptors)
    (hbefore : afterInterceptors = true →
      ∀ q ∈ specs providers, q.afterInterceptors = false → Done q) :
    ∃ s', takeTurns sig (limit + 1) (fillTurns listing afterInterceptors) s = .ok s' ∧
      Coherent sig providers
        (fun q => (q ∈ specs providers ∧ q.afterInterceptors = afterInterceptors) ∨ Done q) s' := by
  have hmem : ∀ p, p ∈ (specs listing).filter (fun p => p.afterInterceptors == afterInterceptors) ↔
      p ∈ specs providers ∧ p.afterInterceptors = afterInterceptors := by
    intro p
    simp [(specs_perm hperm).mem_iff]
  have hnodup : (((specs listing).filter fun p => p.afterInterceptors == afterInterceptors).map
      ProviderSpec.provide).Nodup := by
    have hall := ((specs_perm hperm).map ProviderSpec.provide).nodup_iff.mpr hc.distinct
    exact hall.sublist (List.filter_sublist.map _)
  have hps : ∀ p ∈ (specs listing).filter (fun p => p.afterInterceptors == afterInterceptors),
      p ∈ specs providers ∧ registers p = gives p ∧ gives p ≠ none ∧ Due sig providers Done p ∧
        ∀ c, gives p = some (.of c) → Builds sig (Provided providers) c (limit + 1) := by
    intro p hp
    obtain ⟨hspec, hflag⟩ := (hmem p).mp hp
    exact ⟨hspec, registers_truthy (hl.truthy p hspec), hc.given p hspec,
      due_of_layered hl hspec (hflag ▸ hbefore), hroom.forProviders p hspec⟩
  have hnew : ∀ p ∈ (specs listing).filter (fun p => p.afterInterceptors == afterInterceptors),
      ∀ q, Done q → q.provide ≠ p.provide := by
    intro p hp q hq heq
    obtain ⟨hspec, hflag⟩ := (hmem p).mp hp
    obtain ⟨hqspec, hqflag⟩ := hdone q hq
    obtain rfl := spec_unique hc.distinct hqspec hspec heq
    exact hqflag hflag
  obtain ⟨s', hturns, hs'⟩ := providers_turns h hps hnodup hnew
  simp only [hmem] at hs'
  exact ⟨s', hturns, hs'⟩

/-- The start for any listing of layered providers. -/
theorem start_coherent (hl : Layered sig providers) (hc : Complete sig providers interceptors)
    (hroom : Roomy sig providers interceptors limit) (hperm : listing.Perm providers) :
    ∃ s, startContainer sig (limit + 1) listing interceptors = .ok s ∧
      Coherent sig providers (fun p => p ∈ specs providers) s := by
  obtain ⟨s₁, hfirst, hs₁⟩ := fill_turns hl hc hroom hperm false coherent_empty (by simp) (by simp)
  simp only [or_false] at hs₁
  obtain ⟨s₂, hmiddle, hs₂⟩ :=
    interceptors_turns hl (fun q hq hflag => ⟨hq, hflag⟩) hroom.forInterceptors hs₁
  obtain ⟨s₃, hlast, hs₃⟩ := fill_turns hl hc hroom hperm true hs₂
    (fun q hq => ⟨hq.1, by simp [hq.2]⟩) (fun _ q hq hflag => ⟨hq, hflag⟩)
  have hall : (fun q => (q ∈ specs providers ∧ q.afterInterceptors = true) ∨
      (q ∈ specs providers ∧ q.afterInterceptors = false)) = fun q => q ∈ specs providers := by
    funext q
    cases q.afterInterceptors with
    | false => simp
    | true => simp
  rw [hall] at hs₃
  refine ⟨s₃, ?_, hs₃⟩
  have hplain : ∀ t, .plain t ∉ listing := fun t ht => hl.noPlain t (hperm.mem_iff.mp ht)
  rw [startContainer_turns hplain, turns, List.append_assoc]
  exact takeTurns_append_ok.mpr ⟨s₁, hfirst, takeTurns_append_ok.mpr ⟨s₂, hmiddle, hlast⟩⟩

end Start

section Wiring

variable {sig : Signatures} {limit : Nat} {providers listing : List Provider} {s s' : Container}

/-- The keys of the objects that the providers are wired with. -/
def Kept (sig : Signatures) (providers : List Provider) (key : Key) : Prop :=
  Owned sig providers key ∨ Provided providers key

/-- The container after a start: every provider had its turn. -/
def Started (sig : Signatures) (providers : List Provider) (s : Container) : Prop :=
  Coherent sig providers (fun p => p ∈ specs providers) s

theorem Started.args (h : Started sig providers s) {key : Key}
    (hkey : Kept sig providers key) {id : Nat}
    {c : Callable} {args : List (String × Obj)} (ho : s.instances key = some (.built id c args)) :
    List.Forall₂ (fun d a => s.instances d.2 = some a.2) (sig.dependencies c) args := by
  have hsettled := h.settled key _ ho hkey id c args rfl
  exact List.Forall₂.imp (fun _ _ hda => hda.1) hsettled

/-- What a kept key has does not depend on the start. -/
theorem Started.label_eq (h : Started sig providers s) (h' : Started sig providers s') {key : Key}
    (hkey : Kept sig providers key) {o o' : Obj} (ho : s.instances key = some o)
    (ho' : s'.instances key = some o') : o.label = o'.label := by
  obtain howned | ⟨p, hp, rfl⟩ := hkey
  · rw [h.owned key o howned ho, h'.owned key o' howned ho']
  · obtain ⟨o₁, ho₁, hlabel⟩ := h.filled p hp
    obtain ⟨o₂, ho₂, hlabel'⟩ := h'.filled p hp
    obtain rfl : o = o₁ := by simpa [ho] using ho₁
    obtain rfl : o' = o₂ := by simpa [ho'] using ho₂
    simpa [hlabel] using hlabel'

theorem Started.dependency (h : Started sig providers s) {key : Key} (hkey : Kept sig providers key)
    {id : Nat} {c : Callable} {args : List (String × Obj)}
    (ho : s.instances key = some (.built id c args)) {d : String × Key}
    (hd : d ∈ sig.dependencies c) :
    Kept sig providers d.2 := by
  by_cases hprovided : Provided providers d.2
  · exact .inr hprovided
  · obtain howned | ⟨p, hp, rfl⟩ := hkey
    · obtain rfl : c = key.callable := by simpa [Obj.label] using h.owned key _ howned ho
      obtain ⟨hnot, p, hp, c, hc, hreach⟩ := howned
      exact .inl ⟨hprovided, p, hp, c, hc, .through hreach hnot hd⟩
    · obtain ⟨o, ho', hgives⟩ := h.filled p hp
      obtain rfl : .built id c args = o := by simpa [ho] using ho'
      exact .inl ⟨hprovided, p, hp, c, hgives, .direct hd⟩

/-- The parts of the objects of kept keys are such objects. -/
theorem Started.part (h : Started sig providers s) {key : Key} (hkey : Kept sig providers key)
    {o o' : Obj} (ho : s.instances key = some o) (hpart : Part o o') :
    ∃ key', Kept sig providers key' ∧ s.instances key' = some o' := by
  induction hpart generalizing key with
  | self o => exact ⟨key, hkey, ho⟩
  | @arg id c args a o' held _ ih =>
    have hargs := h.args hkey ho
    obtain ⟨d, hd⟩ := mem_zip_of_mem_right hargs held
    exact ih (h.dependency hkey ho (List.of_mem_zip hd).1) (List.forall₂_zip hargs hd)

/-- After a start the objects hold those of the map, whatever the listing. -/
theorem Started.wired (h : Started sig providers s) (hperm : listing.Perm providers) :
    Wired sig (limit + 1) listing s where
  returned := by
    intro p hp
    obtain ⟨o, ho, hgives⟩ := h.filled p ((specs_perm hperm).mem_iff.mp hp)
    exact ⟨o, by simp [getOrRegister, ho, Except.map], hgives⟩
  held := by
    intro p hp o ho id c args hpart x hx _
    have hkey : Kept sig providers p.provide := .inr ⟨p, (specs_perm hperm).mem_iff.mp hp, rfl⟩
    obtain ⟨key', hkey', ho'⟩ := h.part hkey ho hpart
    exact List.forall₂_zip (h.args hkey' ho') hx

theorem forall₂_zip_right {α β γ : Type} {r : α → β → Prop} {r' : α → γ → Prop} {l : List α}
    {as : List β}
    {bs : List γ} (h : List.Forall₂ r l as) (h' : List.Forall₂ r' l bs) :
    List.Forall₂ (fun d x => r d x.1 ∧ r' d x.2) l (as.zip bs) := by
  induction h generalizing bs with
  | nil => exact .nil
  | cons hda _ ih =>
    cases h' with
    | cons hdb hrest => exact .cons ⟨hda, hdb⟩ (ih hrest)

/-- Two starts give a kept key objects that are wired the same. -/
theorem Started.same (h : Started sig providers s) (h' : Started sig providers s') {key : Key}
    (hkey : Kept sig providers key) {o o' : Obj} (ho : s.instances key = some o)
    (ho' : s'.instances key = some o') : SameWiring sig s s' o o' := by
  -- the arguments are smaller, and are the objects of kept keys themselves
  induction hn : sizeOf o using Nat.strong_induction_on generalizing key o o' with
  | h n ih =>
    have hlabel := h.label_eq h' hkey ho ho'
    cases o with
    | value v =>
      cases o' with
      | value v' =>
        obtain rfl : v = v' := by simpa [Obj.label] using hlabel
        exact .value v
      | built id' c' args' => simp [Obj.label] at hlabel
    | built id c args =>
      obtain ⟨id', args', rfl⟩ := obj_of_label hlabel.symm
      have hargs := h.args hkey ho
      have hargs' := h'.args hkey ho'
      have hboth := forall₂_zip_right hargs hargs'
      refine .built (hargs.length_eq.symm.trans hargs'.length_eq) ?_ ?_
      · intro x hx
        obtain ⟨hx₁, hx₂⟩ := List.forall₂_zip hboth hx
        exact iff_of_true hx₁ hx₂
      · intro x hx
        obtain ⟨d, hd⟩ := mem_zip_of_mem_right hboth hx
        obtain ⟨hx₁, hx₂⟩ := List.forall₂_zip hboth hd
        have hsmall : sizeOf x.1.2 < n := hn ▸ arg_size (List.of_mem_zip hx).1
        exact ih _ hsmall (h.dependency hkey ho (List.of_mem_zip hd).1) hx₁ hx₂ rfl

/-- In layers the listing does not matter. -/
theorem orderFree_of_layered {interceptors : List Callable}
    (hc : Complete sig providers interceptors)
    (hl : Layered sig providers) : OrderFree sig providers interceptors := by
  obtain ⟨enough, hroomy⟩ := exists_roomy hc
  refine ⟨enough + 1, ?_⟩
  intro limit hlimit
  obtain ⟨limit, rfl⟩ : ∃ n, limit = n + 1 := ⟨limit - 1, by omega⟩
  have hroom := hroomy limit (by omega)
  have hstarted : ∀ listing : List Provider, listing.Perm providers → ∃ s,
      startContainer sig (limit + 1) listing interceptors = .ok s ∧ Started sig providers s :=
    fun listing hperm => start_coherent hl hc hroom hperm
  constructor
  · intro listing hperm
    obtain ⟨s, hstart, hs⟩ := hstarted listing hperm
    exact ⟨s, hstart, hs.wired hperm⟩
  · intro listing listing' hperm hperm' s s' hstart hstart' p hp
    obtain ⟨s₁, hstart₁, hs⟩ := hstarted listing hperm
    obtain ⟨s₂, hstart₂, hs'⟩ := hstarted listing' hperm'
    obtain rfl : s₁ = s := by simpa [hstart₁] using hstart
    obtain rfl : s₂ = s' := by simpa [hstart₂] using hstart'
    obtain ⟨o, ho, -⟩ := hs.filled p hp
    obtain ⟨o', ho', -⟩ := hs'.filled p hp
    exact ⟨o, o', ho, ho', hs.same hs' (.inr ⟨p, hp, rfl⟩) ho ho'⟩

end Wiring

/-- The listing does not matter exactly for layered providers. -/
theorem order_free_iff {sig : Signatures} {providers : List Provider} {interceptors : List Callable}
    (hc : Complete sig providers interceptors) :
    OrderFree sig providers interceptors ↔ Layered sig providers :=
  ⟨layered_of_orderFree hc, orderFree_of_layered hc⟩

/-- A repository type (0) with a class for it (1), and a service (2) and an interceptor (3)
that depend on the repository. -/
def serviceSignatures : Signatures where
  dependencies c := if c = 2 ∨ c = 3 then [("repository", .type 0)] else []
  succeeds _ := true

def repositorySpec : ProviderSpec := { provide := .type 0, useClass := some 1 }

def serviceSpec (afterInterceptors : Bool) : ProviderSpec :=
  { provide := .type 2, useClass := some 2, afterInterceptors := afterInterceptors }

theorem service_reach {avail : Key → Prop} {c : Callable} {key : Key}
    (h : Reach serviceSignatures avail c key) : (c = 2 ∨ c = 3) ∧ key = .type 0 := by
  induction h with
  | @direct d dependency =>
    by_cases hc : c = 2 ∨ c = 3
    · obtain rfl : d = ("repository", .type 0) := by simpa [serviceSignatures, hc] using dependency
      exact ⟨hc, rfl⟩
    · simp [serviceSignatures, hc] at dependency
  | through _ _ dependency ih =>
    obtain ⟨-, rfl⟩ := ih
    simp [serviceSignatures, Key.callable] at dependency

theorem buildable_leaf {sig : Signatures} {avail : Key → Prop} {c : Callable}
    (hsucceeds : sig.succeeds c = true)
    (hdeps : ∀ d ∈ sig.dependencies c, avail d.2) : Buildable sig avail c :=
  .intro hsucceeds fun d hd hnot => absurd (hdeps d hd) hnot

theorem service_complete (afterInterceptors : Bool) :
    Complete serviceSignatures [.spec (serviceSpec afterInterceptors), .spec repositorySpec]
    [3] where
  distinct := by
    cases afterInterceptors <;> decide
  given := by
    cases afterInterceptors <;> decide
  buildable := by
    intro p _ c _
    refine buildable_leaf rfl ?_
    intro d hd
    have hreach : Reach serviceSignatures (fun _ => True) c d.2 := .direct hd
    have hkey := (service_reach hreach).2
    exact ⟨repositorySpec, by simp [specs], hkey.symm⟩
  interceptors := by
    intro i hi _
    obtain rfl : i = 3 := by simpa using hi
    refine buildable_leaf rfl ?_
    intro d hd
    have hreach : Reach serviceSignatures (fun _ => True) 3 d.2 := .direct hd
    have hkey := (service_reach hreach).2
    exact ⟨repositorySpec, by simp [specs], hkey.symm, rfl⟩

/-- The service after the interceptors gets the repository of its provider. -/
theorem service_after_order_free :
    OrderFree serviceSignatures [.spec (serviceSpec true), .spec repositorySpec] [3] := by
  refine (order_free_iff (service_complete true)).mpr ⟨by simp, by decide, ?_⟩
  intro p hp c hc q hq hreach
  obtain ⟨hcallable, hkey⟩ := service_reach hreach
  have hp' : p = serviceSpec true ∨ p = repositorySpec := by simpa [specs] using hp
  have hq' : q = serviceSpec true ∨ q = repositorySpec := by simpa [specs] using hq
  obtain rfl | rfl := hp'
  · obtain rfl | rfl := hq'
    · simp [serviceSpec] at hkey
    · exact ⟨rfl, rfl⟩
  · obtain rfl : 1 = c := by simpa [gives, repositorySpec] using hc
    simp at hcallable

/-- Beside the repository, the service gets another one if it is listed first. -/
theorem service_first_holds_another :
    Complete serviceSignatures [.spec (serviceSpec false), .spec repositorySpec] [3] ∧
      ¬OrderFree serviceSignatures [.spec (serviceSpec false), .spec repositorySpec] [3] := by
  refine ⟨service_complete false, ?_⟩
  intro h
  have hl := layered_of_orderFree (service_complete false) h
  have hreach : Reach serviceSignatures
      (Provided [.spec (serviceSpec false), .spec repositorySpec]) 2 repositorySpec.provide :=
    .direct (d := ("repository", .type 0)) (by simp [serviceSignatures])
  have hafter :=
    hl.apart (serviceSpec false) (by simp [specs]) 2 rfl repositorySpec (by simp [specs]) hreach
  exact absurd hafter.1 (by decide)

end ProviderLayers

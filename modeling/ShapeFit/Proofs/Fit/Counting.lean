import ShapeFit.Proofs.Fit.Traversal

/-!
# ShapeFit.Proofs.Fit.Counting

What an attempt looks up and asks for.

Where no open slot is filled, a type is asked for right after a lookup that found nothing,
and at no other time. So the types asked for are the targets of the composites missed
(`Balanced`, `traversal_balanced`).

A composite that can be resolved is staged after its first lookup, and is not looked up
again. Between the lookup and the staging only composites inside it are gone through, and
it is none of them (`Tally`, `traversal_tally`).
-/

namespace ShapeFit

/-! ## Lookups of a session -/

/-- The composite that was found among the resolutions known before. -/
@[simp] def Event.found? : Event → Option Composite
  | .hit c => some c
  | .miss _ | .consult _ => none

/-- The composite that was looked for among the resolutions known before and not found. -/
@[simp] def Event.missed? : Event → Option Composite
  | .miss c => some c
  | .hit _ | .consult _ => none

/-- The type that was asked for. -/
@[simp] def Event.consulted? : Event → Option TypeName
  | .consult t => some t
  | .hit _ | .miss _ => none

namespace Session

/-- The composites found by counted lookups, in order. -/
def found (s : Session) : List Composite := s.events.filterMap Event.found?

/-- The composites missed by counted lookups, in order. -/
def missed (s : Session) : List Composite := s.events.filterMap Event.missed?

variable (s : Session)

/-- What the events tell grows by what the recorded one tells. -/
theorem filterMap_events_record {α : Type} (f : Event → Option α) (e : Event) :
    (s.record e).events.filterMap f = s.events.filterMap f ++ (f e).toList := by
  have hevents : (s.record e).events = s.events ++ [e] := List.reverse_cons
  rw [hevents, List.filterMap_append]
  cases h : f e with
  | none => rw [List.filterMap_cons_none h]; rfl
  | some a => rw [List.filterMap_cons_some h]; rfl

@[simp] theorem found_record (e : Event) : (s.record e).found = s.found ++ e.found?.toList :=
  s.filterMap_events_record Event.found? e

@[simp] theorem missed_record (e : Event) : (s.record e).missed = s.missed ++ e.missed?.toList :=
  s.filterMap_events_record Event.missed? e

@[simp] theorem consulted_record (e : Event) :
    (s.record e).consulted = s.consulted ++ e.consulted?.toList :=
  s.filterMap_events_record Event.consulted? e

end Session

/-- The session after a composite was looked for: nothing has happened if it is staged, one
lookup has been counted if it was known before, and otherwise it has been selected, and
staged if that succeeded. -/
theorem Fit.remember_cases {table : Table} {c : Composite} {select : Attempt Failure Resolution}
    {s t : Session} (h : ((Fit.remember (some table) c select).run s).2 = t) :
    (∃ res, s.staged.find? c = some res ∧ t = s) ∨
      (∃ res, s.staged.find? c = none ∧ table.find? c = some res ∧ t = s.record (.hit c)) ∨
      (s.staged.find? c = none ∧ table.find? c = none ∧
        ((∃ f, select.run (s.record (.miss c)) = (.error f, t)) ∨
          ∃ res u, select.run (s.record (.miss c)) = (.ok res, u) ∧ t = u.stage c res)) := by
  subst h
  rw [Conforms.remember_run]
  cases hstaged : s.staged.find? c with
  | some res => exact .inl ⟨res, rfl, rfl⟩
  | none =>
      cases hknown : table.find? c with
      | some res => exact .inr (.inl ⟨res, rfl, rfl, rfl⟩)
      | none =>
          refine .inr (.inr ⟨rfl, rfl, ?_⟩)
          cases hrun : select.run (s.record (.miss c)) with
          | mk res u =>
              cases res with
              | ok res => exact .inr ⟨res, u, rfl, rfl⟩
              | error f => exact .inl ⟨f, rfl⟩

/-! ## Types asked for -/

/-- Between the sessions, the types asked for are the targets of the composites missed, one
for one and in order. -/
def Balanced (s t : Session) : Prop :=
  ∃ cs : List Composite, t.missed = s.missed ++ cs ∧
    t.consulted = s.consulted ++ cs.map Composite.target

namespace Balanced

variable {s t : Session}

theorem of_eq (hmissed : t.missed = s.missed) (hconsulted : t.consulted = s.consulted) :
    Balanced s t :=
  ⟨[], by rw [hmissed, List.append_nil], by rw [hconsulted, List.map_nil, List.append_nil]⟩

theorem chains : Attempt.Chains Balanced where
  refl s := of_eq rfl rfl
  trans h h' := by
    obtain ⟨cs, hmissed, hconsulted⟩ := h
    obtain ⟨ds, hmissed', hconsulted'⟩ := h'
    refine ⟨cs ++ ds, ?_, ?_⟩
    · rw [hmissed', hmissed, List.append_assoc]
    · rw [hconsulted', hconsulted, List.map_append, List.append_assoc]

/-- A lookup that finds nothing, and the type asked for next. -/
theorem miss (s : Session) (c : Composite) :
    Balanced s ((s.record (.miss c)).record (.consult c.target)) :=
  ⟨[c], by simp, by simp⟩

end Balanced

/-- While resolutions are remembered, types are asked for as composites are missed. -/
theorem traversal_balanced {ctx : Context} {table : Table} (hmemo : ctx.memo? = some table) :
    Traversal ctx fun _ => Balanced where
  chains _ := Balanced.chains
  mono _ h := h
  composite c hselection s := by
    have hchosen := Balanced.chains.trans (Balanced.miss s c) (hselection (s.record (.miss c)))
    rw [Fit.composite, hmemo]
    obtain ⟨res, -, ht⟩ | ⟨res, -, -, ht⟩ | ⟨-, -, ⟨f, hrun⟩ | ⟨res, u, hrun, ht⟩⟩ :=
      Fit.remember_cases rfl
    · rw [ht]
      exact Balanced.chains.refl s
    · rw [ht]
      exact .of_eq (by simp) (by simp)
    · rw [Fit.selection, hrun] at hchosen
      exact hchosen
    · rw [Fit.selection, hrun] at hchosen
      rw [ht]
      exact hchosen

/-! ## Composites missed -/

/-- The composites `cs` are those missed between two sessions, while the composites `nodes`
are gone through. None of them was visible before. One that can be resolved is missed once
and visible afterwards. -/
structure Misses (ctx : Context) (nodes : List Composite) (s t : Session) (cs : List Composite) :
    Prop where
  missed : t.missed = s.missed ++ cs
  mem : ∀ c ∈ cs, c ∈ nodes
  fresh : ∀ c ∈ cs, c ∉ (ctx.visible s).keys
  once : ∀ c res, Plain.composite ctx.registry ctx.widening c = .ok res → cs.count c ≤ 1
  kept : ∀ c res, Plain.composite ctx.registry ctx.widening c = .ok res → c ∈ cs →
    c ∈ (ctx.visible t).keys

/-- What is visible grows between two sessions, and some composites are missed. -/
structure Tally (ctx : Context) (nodes : List Composite) (s t : Session) : Prop where
  faithful : ctx.Faithful t
  grows : (ctx.visible s).keys ⊆ (ctx.visible t).keys
  misses : ∃ cs, Misses ctx nodes s t cs

namespace Misses

variable {ctx : Context} {N M cs ds : List Composite} {s t u : Session} {c : Composite}
  {res : Resolution}

theorem nil (hmissed : t.missed = s.missed) : Misses ctx N s t [] where
  missed := by rw [hmissed, List.append_nil]
  mem := nofun
  fresh := nofun
  once _ _ _ := Nat.zero_le _
  kept := nofun

/-- What was missed before and can be resolved is visible, so it is not missed again. -/
theorem trans (h : Misses ctx N s t cs) (h' : Misses ctx N t u ds)
    (hgrows : (ctx.visible s).keys ⊆ (ctx.visible t).keys)
    (hgrows' : (ctx.visible t).keys ⊆ (ctx.visible u).keys) : Misses ctx N s u (cs ++ ds) where
  missed := by rw [h'.missed, h.missed, List.append_assoc]
  mem c hc := (List.mem_append.mp hc).elim (h.mem c) (h'.mem c)
  fresh c hc := (List.mem_append.mp hc).elim (h.fresh c) fun hd hs => h'.fresh c hd (hgrows hs)
  once c res hres := by
    rw [List.count_append]
    by_cases hc : c ∈ cs
    · have hd : c ∉ ds := fun hd => h'.fresh c hd (h.kept c res hres hc)
      rw [List.count_eq_zero_of_not_mem hd]
      exact h.once c res hres
    · rw [List.count_eq_zero_of_not_mem hc, Nat.zero_add]
      exact h'.once c res hres
  kept c res hres hc :=
    (List.mem_append.mp hc).elim (fun hc => hgrows' (h.kept c res hres hc)) (h'.kept c res hres)

theorem mono (h : Misses ctx N s t cs) (hNM : N ⊆ M) : Misses ctx M s t cs :=
  ⟨h.missed, fun c hc => hNM (h.mem c hc), h.fresh, h.once, h.kept⟩

/-- A type asked for is no lookup. -/
theorem of_consult {n : TypeName} (h : Misses ctx N (s.record (.consult n)) t cs) :
    Misses ctx N s t cs :=
  ⟨by simp [h.missed], h.mem, h.fresh, h.once, h.kept⟩

/-- Selecting a composite after it was missed. It is none of the composites inside it, so it
is not missed again meanwhile. -/
theorem cons (h : Misses ctx c.inner (s.record (.miss c)) t cs) (hc : c ∉ (ctx.visible s).keys)
    (hkept : ∀ res, Plain.composite ctx.registry ctx.widening c = .ok res →
      c ∈ (ctx.visible u).keys)
    (hgrows : (ctx.visible t).keys ⊆ (ctx.visible u).keys) (hmissed : u.missed = t.missed) :
    Misses ctx c.composites s u (c :: cs) where
  missed := by simp [hmissed, h.missed]
  mem := by
    rw [Composite.composites_eq]
    exact List.forall_mem_cons.mpr
      ⟨List.mem_cons_self, fun d hd => List.mem_cons_of_mem c (h.mem d hd)⟩
  fresh := List.forall_mem_cons.mpr ⟨hc, h.fresh⟩
  once d res hres := by
    by_cases hd : c = d
    · have hcs : c ∉ cs := fun hcs => c.not_mem_inner (h.mem c hcs)
      have hcount : (c :: cs).count c = 1 := by
        rw [List.count_cons_self, List.count_eq_zero_of_not_mem hcs]
      rw [← hd]
      exact Nat.le_of_eq hcount
    · rw [List.count_cons_of_ne hd]
      exact h.once d res hres
  kept d res hres hd := by
    rw [List.mem_cons] at hd
    cases hd with
    | inl he =>
        rw [he] at hres ⊢
        exact hkept res hres
    | inr hmem => exact hgrows (h.kept d res hres hmem)

end Misses

/-- Choosing a constructor comes to what plain fitting chooses. -/
theorem Conforms.selection {ctx : Context} (c : Composite) :
    Conforms ctx (Fit.selection ctx c) (Plain.composite ctx.registry ctx.widening c) c.inner :=
  Conforms.select fun _ hlen => Conforms.args (fun a _ => Conforms.signature a.val) hlen

/-- A composite that is neither staged nor was known before is not visible. -/
theorem Context.not_mem_visible {ctx : Context} {table : Table} {s : Session} {c : Composite}
    (hmemo : ctx.memo? = some table) (hstaged : s.staged.find? c = none)
    (hknown : table.find? c = none) : c ∉ (ctx.visible s).keys := by
  apply Table.not_mem_keys_of_find?
  rw [visible, Table.find?_insertAll, known, hmemo, hstaged]
  exact hknown

/-- Resolving a composite misses it, unless it is visible, and then what is missed while its
candidates are tried. -/
theorem Misses.composite {ctx : Context} {c : Composite} {s : Session} (hs : ctx.Faithful s)
    (hselection : ∀ s, ctx.Faithful s →
      ∃ cs, Misses ctx c.inner s ((Fit.selection ctx c).run s).2 cs) :
    ∃ cs, Misses ctx c.composites s ((Fit.composite ctx c).run s).2 cs := by
  cases hmemo : ctx.memo? with
  | none =>
      obtain ⟨cs, hcs⟩ := hselection s hs
      rw [Fit.composite, hmemo]
      exact ⟨cs, hcs.mono c.inner_subset⟩
  | some table =>
      obtain ⟨hplain, -⟩ := Conforms.selection c (s.record (.miss c)) hs
      obtain ⟨cs, hcs⟩ := hselection (s.record (.miss c)) hs
      rw [Fit.composite, hmemo]
      obtain ⟨res, -, ht⟩ | ⟨res, -, -, ht⟩ | ⟨hstaged, hknown, hchosen⟩ := Fit.remember_cases rfl
      · exact ⟨[], .nil (congrArg Session.missed ht)⟩
      · exact ⟨[], .nil (by simp [ht])⟩
      · have hc := Context.not_mem_visible hmemo hstaged hknown
        cases hchosen with
        | inl hfailed =>
            obtain ⟨f, hrun⟩ := hfailed
            rw [Fit.selection, hrun] at hplain hcs
            refine ⟨c :: cs, hcs.cons hc (fun res hres => ?_) (List.Subset.refl _) rfl⟩
            rw [← hplain] at hres
            contradiction
        | inr hstages =>
            obtain ⟨res, u, hrun, ht⟩ := hstages
            rw [Fit.selection, hrun] at hcs
            rw [ht]
            refine ⟨c :: cs, hcs.cons hc (fun _ _ => ?_) ?_ rfl⟩
            · rw [Context.visible_stage, Table.keys_insert]
              exact List.mem_cons_self
            · rw [Context.visible_stage, Table.keys_insert]
              exact List.subset_cons_self c _

/-- Fitting misses a composite that can be resolved once at most. -/
theorem traversal_tally (ctx : Context) :
    Traversal ctx fun nodes s t => ctx.Faithful s → Tally ctx nodes s t where
  chains nodes :=
    { refl := fun s hs => ⟨hs, List.Subset.refl _, [], .nil rfl⟩
      trans := by
        intro s t u h h' hs
        obtain ⟨ht, hgrows, cs, hcs⟩ := h hs
        obtain ⟨hu, hgrows', ds, hds⟩ := h' ht
        exact ⟨hu, List.Subset.trans hgrows hgrows', cs ++ ds, hcs.trans hds hgrows hgrows'⟩ }
  mono hNM h hs := by
    obtain ⟨ht, hgrows, cs, hcs⟩ := h hs
    exact ⟨ht, hgrows, cs, hcs.mono hNM⟩
  composite c hselection s hs := by
    obtain ⟨-, hprogress⟩ := Conforms.composite c s hs
    refine ⟨hprogress.faithful, hprogress.grows, Misses.composite hs fun s' hs' => ?_⟩
    obtain ⟨-, -, cs, hcs⟩ := hselection s' hs'
    exact ⟨cs, hcs.of_consult⟩

/-- A type asked for changes nothing that is visible or missed. -/
theorem Tally.record_consult (ctx : Context) (n : TypeName) :
    Attempt.Along (fun s t => ctx.Faithful s → Tally ctx [] s t)
      (Attempt.record (.consult n) : Attempt Failure Unit) := by
  intro s hs
  have hmissed : (s.record (.consult n)).missed = s.missed := by simp
  exact ⟨hs, List.Subset.refl _, [], .nil hmissed⟩

end ShapeFit

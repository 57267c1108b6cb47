import Mathlib.Logic.Relation
import ShapeFit.Proofs.Fit.Counting

/-!
# ShapeFit.Proofs.Fit.Staging

What an attempt stages, step by step.

All that happens to a session is that events are recorded and resolutions are staged. A
composite is staged only when it is not visible and all that occurs in it is
(`Session.Change`). Fitting goes on by such steps alone, through candidates that are rejected,
too (`traversal_reaches`). One step keeps what is staged in order (`Table.Orderly.change`), so
it is in order at every point of an attempt (`Table.Orderly.of_reaches`).

Setting the staged resolutions one by one then replaces none (`Table.Orderly.setAll_eq`).
-/

namespace ShapeFit

/-! ## Order -/

/-- Whether resolutions are staged in order beside those that are known. -/
structure Table.Orderly (known staged : Table) : Prop where
  distinct : staged.keys.Nodup
  /-- What is known is not staged. -/
  fresh : ∀ c ∈ staged.keys, c ∉ known.keys
  /-- All that occurs in what is staged is staged, too, or known. -/
  closed : ∀ c ∈ staged.keys, ∀ d ∈ c.inner, d ∈ staged.keys ∨ d ∈ known.keys
  /-- What is staged later does not occur in what is staged already. -/
  innerFirst : staged.keys.Pairwise fun later earlier => later ∉ earlier.inner

/-- One step of an attempt in its session. -/
inductive Session.Change (ctx : Context) (s : Session) : Session → Prop
  | record (e : Event) : Change ctx s (s.record e)
  | stage {c : Composite} (res : Resolution) : c ∉ (ctx.visible s).keys →
      c.inner ⊆ (ctx.visible s).keys → Change ctx s (s.stage c res)

/-- Whether an attempt can get from one session to another one. -/
def Session.Reaches (ctx : Context) : Session → Session → Prop :=
  Relation.ReflTransGen (Session.Change ctx)

/-- What is visible is staged or known. -/
theorem Context.mem_keys_visible {ctx : Context} {s : Session} {c : Composite} :
    c ∈ (ctx.visible s).keys ↔ c ∈ s.staged.keys ∨ c ∈ ctx.known.keys := by
  simp [visible, Table.keys, Table.insertAll]

namespace Table.Orderly

variable {ctx : Context} {known staged : Table} {s t : Session}

theorem empty (known : Table) : known.Orderly .empty where
  distinct := .nil
  fresh := nofun
  closed := nofun
  innerFirst := .nil

/-- A composite that is new comes behind all that occurs in it. It occurs in nothing that is
staged already, since all that does is staged, too, or known. -/
theorem insert (h : known.Orderly staged) {c : Composite} (res : Resolution)
    (hstaged : c ∉ staged.keys) (hknown : c ∉ known.keys)
    (hinner : ∀ d ∈ c.inner, d ∈ staged.keys ∨ d ∈ known.keys) :
    known.Orderly (staged.insert c res) where
  distinct := List.nodup_cons.mpr ⟨hstaged, h.distinct⟩
  fresh := List.forall_mem_cons.mpr ⟨hknown, h.fresh⟩
  closed := by
    rw [keys_insert, List.forall_mem_cons]
    refine ⟨fun d hd => ?_, fun d hd e he => ?_⟩
    · exact (hinner d hd).imp_left (List.mem_cons_of_mem c)
    · exact (h.closed d hd e he).imp_left (List.mem_cons_of_mem c)
  innerFirst := by
    rw [keys_insert, List.pairwise_cons]
    exact ⟨fun d hd hc => (h.closed d hd c hc).elim hstaged hknown, h.innerFirst⟩

/-- One step keeps what is staged in order. -/
theorem change (h : ctx.known.Orderly s.staged) (hstep : Session.Change ctx s t) :
    ctx.known.Orderly t.staged := by
  cases hstep with
  | record e => exact h
  | stage res hnew hinner =>
      rw [Context.mem_keys_visible, not_or] at hnew
      exact h.insert res hnew.1 hnew.2 fun d hd => Context.mem_keys_visible.mp (hinner hd)

/-- What is staged is in order at every point of an attempt. -/
theorem of_reaches (h : ctx.known.Orderly s.staged) (hsteps : Session.Reaches ctx s t) :
    ctx.known.Orderly t.staged := by
  induction hsteps with
  | refl => exact h
  | tail _ hstep ih => exact ih.change hstep

end Table.Orderly

/-! ## Steps of fitting -/

namespace Session.Reaches

variable {ctx : Context}

theorem record (s : Session) (e : Event) : Session.Reaches ctx s (s.record e) :=
  .single (.record e)

/-- A composite that has been selected can be staged. -/
theorem stage {c : Composite} {s t : Session} {res : Resolution}
    (h : Progress ctx c.inner true s t) (hmemo : ctx.memo?.isSome = true)
    (hc : c ∉ (ctx.visible s).keys) : Session.Reaches ctx t (t.stage c res) := by
  refine .single (.stage res (fun ht => ?_) (h.all rfl hmemo))
  exact (h.only c ht).elim hc c.not_mem_inner

end Session.Reaches

/-- Fitting goes on by steps that a session can take. -/
theorem traversal_reaches (ctx : Context) :
    Traversal ctx fun _ s t => ctx.Faithful s → ctx.Faithful t ∧ Session.Reaches ctx s t where
  chains _ :=
    { refl := fun _ hs => ⟨hs, .refl⟩
      trans := by
        intro s t u h h' hs
        obtain ⟨ht, hsteps⟩ := h hs
        obtain ⟨hu, hsteps'⟩ := h' ht
        exact ⟨hu, hsteps.trans hsteps'⟩ }
  mono _ h := h
  composite c hselection s hs := by
    obtain ⟨-, hprogress⟩ := Conforms.composite c s hs
    refine ⟨hprogress.faithful, ?_⟩
    have hselect (s : Session) (hs : ctx.Faithful s) :
        Session.Reaches ctx s ((Fit.selection ctx c).run s).2 :=
      .trans (Session.Reaches.record s (.consult c.target)) (hselection s hs).2
    cases hmemo : ctx.memo? with
    | none =>
        rw [Fit.composite, hmemo]
        exact hselect s hs
    | some table =>
        obtain ⟨hplain, hselected⟩ := Conforms.selection c (s.record (.miss c)) hs
        have hchosen := (Session.Reaches.record s (.miss c)).trans
          (hselect (s.record (.miss c)) hs)
        rw [Fit.composite, hmemo]
        obtain ⟨res, -, ht⟩ | ⟨res, -, -, ht⟩ | ⟨hstaged, hknown, ⟨f, hrun⟩ | ⟨res, u, hrun, ht⟩⟩ :=
          Fit.remember_cases rfl
        · rw [ht]
          exact .refl
        · rw [ht]
          exact .record s (.hit c)
        · rw [Fit.selection, hrun] at hchosen
          exact hchosen
        · rw [Fit.selection, hrun] at hchosen hselected hplain
          rw [ht]
          have hc := Context.not_mem_visible hmemo hstaged hknown
          rw [← hplain] at hselected
          exact hchosen.trans (Session.Reaches.stage hselected (by rw [hmemo]; rfl) hc)

/-- Asking for a type is a step. -/
theorem Session.Reaches.record_consult (ctx : Context) (n : TypeName) :
    Attempt.Along (fun s t => ctx.Faithful s → ctx.Faithful t ∧ Session.Reaches ctx s t)
      (Attempt.record (.consult n) : Attempt Failure Unit) :=
  fun s hs => ⟨hs, .record s (.consult n)⟩

/-! ## Setting what is staged -/

namespace Table

/-- Sets the resolution of a composite, in place of the one that it may have. -/
def set (t : Table) (c : Composite) (res : Resolution) : Table :=
  insert ⟨t.entries.filter fun e => e.key ≠ c⟩ c res

/-- Sets the resolutions of a table one by one, in the order in which they were added to it. -/
def setAll (t later : Table) : Table :=
  later.entries.foldr (fun e t => t.set e.key e.resolution) t

/-- Where a composite has no resolution, none is replaced. -/
theorem set_of_not_mem {t : Table} {c : Composite} (hc : c ∉ t.keys) (res : Resolution) :
    t.set c res = t.insert c res := by
  rw [set, List.filter_eq_self.mpr]
  intro e he
  simp only [ne_eq, decide_eq_true_eq]
  rintro rfl
  exact hc (List.mem_map_of_mem he)

/-- Setting what is staged in order adds it and replaces nothing. -/
theorem Orderly.setAll_eq {known staged : Table} (h : known.Orderly staged) :
    known.setAll staged = known.insertAll staged := by
  obtain ⟨entries⟩ := staged
  obtain ⟨hdistinct, hfresh, -, -⟩ := h
  induction entries with
  | nil => rfl
  | cons e entries ih =>
      obtain ⟨hnew, hdistinct⟩ := List.nodup_cons.mp hdistinct
      obtain ⟨hunknown, hfresh⟩ := List.forall_mem_cons.mp hfresh
      have hmem : e.key ∉ (known.insertAll ⟨entries⟩).keys := by
        simp only [keys, insertAll, List.map_append, List.mem_append, not_or]
        exact ⟨hnew, hunknown⟩
      have hset : known.setAll ⟨e :: entries⟩ =
          (known.setAll ⟨entries⟩).set e.key e.resolution := rfl
      rw [hset, ih hdistinct hfresh, set_of_not_mem hmem]
      obtain ⟨key, keySize, resolution, rfl⟩ := e
      rfl

end Table

end ShapeFit

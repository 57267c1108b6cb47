import ShapeFit.Proofs.Fit.Plain
import ShapeFit.Proofs.Signature.Composites

/-!
# ShapeFit.Proofs.Fit.Memo

What an attempt comes to, and what it leaves in its session.

An attempt may use the resolutions known before it and those that it has staged
(`Context.visible`). As long as each of them is what plain fitting gives
(`Table.Faithful`), the attempt comes to the plain result, and what is visible
afterwards is again faithful. It grows by composites that the attempt goes through
and by no others, and after a success by all of them (`Progress`).

`Conforms` puts this into one judgement on attempts. There is one rule for each way
of putting attempts together, so the main statements follow the clauses of
`ShapeFit.Fit`:

* `Conforms.expand` — filling an open slot;
* `Conforms.remember` — a composite looked up, or selected and staged;
* `Conforms.signature` — fitting a signature;
* `Conforms.composite` — resolving a composite.
-/

namespace ShapeFit

/-! ## Faithful tables -/

/-- A table as resolving over a registry fills it: each resolution is what plain
fitting gives, a composite comes with all that occur in it, and none comes twice. -/
structure Table.Faithful (r : Registry) (w : Bool) (t : Table) : Prop where
  sound : ∀ c res, t.find? c = some res → Plain.composite r w c = .ok res
  closed : ∀ c ∈ t.keys, c.composites ⊆ t.keys
  nodup : t.keys.Nodup

namespace Table

theorem keys_insert (t : Table) (c : Composite) (res : Resolution) :
    (t.insert c res).keys = c :: t.keys := rfl

/-- A composite that is found is a key. -/
theorem mem_keys_of_find? {t : Table} {c : Composite} {res : Resolution}
    (h : t.find? c = some res) : c ∈ t.keys := by
  rw [← isSome_find?, h]
  rfl

/-- A composite that is not found is no key. -/
theorem not_mem_keys_of_find? {t : Table} {c : Composite} (h : t.find? c = none) :
    c ∉ t.keys := by
  rw [← isSome_find?, h]
  nofun

namespace Faithful

variable {r : Registry} {w : Bool} {t : Table}

/-- The table without entries is faithful. -/
theorem empty : Table.empty.Faithful r w where
  sound := nofun
  closed := nofun
  nodup := .nil

/-- A key has the resolution that plain fitting gives. -/
theorem find?_of_mem (h : t.Faithful r w) {c : Composite} (hc : c ∈ t.keys) :
    ∃ res, t.find? c = some res ∧ Plain.composite r w c = .ok res := by
  obtain ⟨res, hres⟩ := Option.isSome_iff_exists.mp (isSome_find?.mpr hc)
  exact ⟨res, hres, h.sound c res hres⟩

/-- Faithful tables with the same keys find the same. -/
theorem find?_congr {t' : Table} (h : t.Faithful r w) (h' : t'.Faithful r w)
    (hkeys : ∀ c, c ∈ t.keys ↔ c ∈ t'.keys) (c : Composite) : t.find? c = t'.find? c := by
  by_cases hc : c ∈ t.keys
  · obtain ⟨res, hfind, hplain⟩ := h.find?_of_mem hc
    obtain ⟨res', hfind', hplain'⟩ := h'.find?_of_mem ((hkeys c).mp hc)
    rw [hplain, Except.ok.injEq] at hplain'
    rw [hfind, hfind', hplain']
  · have hc' : c ∉ t'.keys := fun hm => hc ((hkeys c).mpr hm)
    rw [← isSome_find?, Bool.not_eq_true, Option.isSome_eq_false_iff, Option.isNone_iff_eq_none]
      at hc hc'
    rw [hc, hc']

/-- A new resolution can be added once all that occurs in its composite is there. -/
theorem insert (h : t.Faithful r w) {c : Composite} {res : Resolution} (hc : c ∉ t.keys)
    (hin : c.inner ⊆ t.keys) (hres : Plain.composite r w c = .ok res) :
    (t.insert c res).Faithful r w where
  sound d res' hd := by
    rw [find?_insert] at hd
    by_cases hcd : c = d
    · rw [if_pos hcd] at hd
      rw [← hcd, hres, Option.some.inj hd]
    · rw [if_neg hcd] at hd
      exact h.sound d res' hd
  closed d hd := by
    rw [keys_insert] at hd ⊢
    rw [List.mem_cons] at hd
    cases hd with
    | inl he =>
        rw [he, Composite.composites_eq]
        exact List.cons_subset_cons c hin
    | inr ht => exact List.subset_cons_of_subset c (h.closed d ht)
  nodup := List.nodup_cons.mpr ⟨hc, h.nodup⟩

end Faithful

end Table

/-! ## Progress -/

namespace Context

/-- The resolutions known before an attempt. -/
def known (ctx : Context) : Table := ctx.memo?.getD .empty

/-- The resolutions that an attempt can use: those known before and those staged. -/
def visible (ctx : Context) (s : Session) : Table := ctx.known.insertAll s.staged

theorem visible_stage (ctx : Context) (s : Session) (c : Composite) (res : Resolution) :
    ctx.visible (s.stage c res) = (ctx.visible s).insert c res := rfl

/-- Whether a session is one that an attempt can be in. -/
def Faithful (ctx : Context) (s : Session) : Prop :=
  (ctx.visible s).Faithful ctx.registry ctx.widening

end Context

/-- What happens between two sessions while the composites `nodes` are gone through. -/
structure Progress (ctx : Context) (nodes : List Composite) (ok : Bool) (s t : Session) :
    Prop where
  faithful : ctx.Faithful t
  grows : (ctx.visible s).keys ⊆ (ctx.visible t).keys
  only : ∀ c ∈ (ctx.visible t).keys, c ∈ (ctx.visible s).keys ∨ c ∈ nodes
  /-- After a success everything gone through is visible, if resolutions are
  remembered at all. -/
  all : ok = true → ctx.memo?.isSome = true → nodes ⊆ (ctx.visible t).keys
  /-- Without a memo nothing is staged. -/
  idle : ctx.memo? = none → t.staged = s.staged

namespace Progress

variable {ctx : Context} {N M : List Composite} {ok : Bool} {s t u : Session}

/-- Nothing has happened, and there was nothing to go through. -/
theorem refl (h : ctx.Faithful s) : Progress ctx [] ok s s where
  faithful := h
  grows := List.Subset.refl _
  only _ hc := .inl hc
  all _ _ := List.nil_subset _
  idle _ := rfl

/-- A success followed by more. -/
theorem trans (h : Progress ctx N true s t) (h' : Progress ctx M ok t u) :
    Progress ctx (N ++ M) ok s u where
  faithful := h'.faithful
  grows := List.Subset.trans h.grows h'.grows
  only c hc := by
    rw [List.mem_append, ← or_assoc]
    exact (h'.only c hc).imp_left (h.only c)
  all hok hmemo := by
    rw [List.append_subset]
    exact ⟨List.Subset.trans (h.all rfl hmemo) h'.grows, h'.all hok hmemo⟩
  idle hmemo := by rw [h'.idle hmemo, h.idle hmemo]

/-- There may have been more to go through, if all of it is visible whenever it has
to be. -/
theorem weaken (h : Progress ctx N ok s t) (hNM : N ⊆ M)
    (hall : ok = true → ctx.memo?.isSome = true → M ⊆ (ctx.visible t).keys) :
    Progress ctx M ok s t where
  faithful := h.faithful
  grows := h.grows
  only c hc := (h.only c hc).imp_right fun hN => hNM hN
  all := hall
  idle := h.idle

theorem of_failure (h : Progress ctx N false s t) (hNM : N ⊆ M) : Progress ctx M false s t :=
  h.weaken hNM nofun

theorem of_memo_none (h : Progress ctx N ok s t) (hmemo : ctx.memo? = none) (hNM : N ⊆ M) :
    Progress ctx M ok s t := by
  refine h.weaken hNM fun _ hsome => ?_
  rw [hmemo] at hsome
  contradiction

/-- A failure followed by another try at the same composites. -/
theorem retry (h : Progress ctx N false s t) (h' : Progress ctx N ok t u) :
    Progress ctx N ok s u where
  faithful := h'.faithful
  grows := List.Subset.trans h.grows h'.grows
  only c hc := (h'.only c hc).elim (h.only c) .inr
  all := h'.all
  idle hmemo := by rw [h'.idle hmemo, h.idle hmemo]

theorem record (h : Progress ctx N ok s t) (e : Event) : Progress ctx N ok s (t.record e) :=
  ⟨h.faithful, h.grows, h.only, h.all, h.idle⟩

/-- Nothing has to happen for a composite that is visible: all that occurs in it is
visible too. -/
theorem of_mem {c : Composite} (h : ctx.Faithful s) (hc : c ∈ (ctx.visible s).keys) :
    Progress ctx c.composites ok s s where
  faithful := h
  grows := List.Subset.refl _
  only _ hd := .inl hd
  all _ _ := h.closed c hc
  idle _ := rfl

/-- A composite resolved by going through its arguments is staged. It was not visible
before and does not occur in its arguments, so it is not visible yet. -/
theorem stage {c : Composite} {res : Resolution} (h : Progress ctx c.inner true s t)
    (hmemo : ctx.memo?.isSome = true) (hc : c ∉ (ctx.visible s).keys)
    (hres : Plain.composite ctx.registry ctx.widening c = .ok res) :
    Progress ctx c.composites true s (t.stage c res) where
  faithful := by
    have hnew : c ∉ (ctx.visible t).keys :=
      fun ht => (h.only c ht).elim hc c.not_mem_inner
    exact Table.Faithful.insert h.faithful hnew (h.all rfl hmemo) hres
  grows := List.subset_cons_of_subset c h.grows
  only d hd := by
    rw [Context.visible_stage, Table.keys_insert, List.mem_cons] at hd
    rw [Composite.composites_eq, List.mem_cons]
    cases hd with
    | inl he => exact .inr (.inl he)
    | inr ht => exact (h.only d ht).imp_right .inr
  all _ _ := by
    rw [Context.visible_stage, Table.keys_insert, Composite.composites_eq]
    exact List.cons_subset_cons c (h.all rfl hmemo)
  idle hnone := by
    rw [hnone] at hmemo
    contradiction

end Progress

/-! ## Conforming attempts -/

/-- The attempt comes to `p` in every session that it can be in, and goes through the
composites `nodes`. -/
def Conforms {ε α : Type} (ctx : Context) (x : Attempt ε α) (p : Except ε α)
    (nodes : List Composite) : Prop :=
  ∀ s, ctx.Faithful s → (x.run s).1 = p ∧ Progress ctx nodes p.isOk s (x.run s).2

namespace Conforms

variable {ε ε' α β : Type} {ctx : Context} {N M : List Composite}

theorem pure (a : α) : Conforms ctx (pure a : Attempt ε α) (.ok a) [] :=
  fun _ hs => ⟨rfl, .refl hs⟩

theorem fail (e : ε) (nodes : List Composite) :
    Conforms ctx (Attempt.fail e : Attempt ε α) (.error e) nodes :=
  fun _ hs => ⟨rfl, (Progress.refl hs).of_failure (List.nil_subset nodes)⟩

theorem ofExcept (p : Except ε α) : Conforms ctx (Attempt.ofExcept p) p [] := by
  cases p with
  | ok a => exact pure a
  | error e => exact fail e []

theorem record (e : Event) : Conforms ctx (Attempt.record e : Attempt ε Unit) (.ok ()) [] := by
  intro s hs
  exact ⟨rfl, (Progress.refl hs).record e⟩

theorem bind {x : Attempt ε α} {p : Except ε α} {f : α → Attempt ε β} {q : α → Except ε β}
    (hx : Conforms ctx x p N) (hf : ∀ a, p = .ok a → Conforms ctx (f a) (q a) M) :
    Conforms ctx (x >>= f) (p >>= q) (N ++ M) := by
  intro s hs
  obtain ⟨hres, hprog⟩ := hx s hs
  rw [Attempt.bind_apply]
  cases hrun : x.run s with
  | mk res t =>
      rw [hrun] at hres hprog
      subst hres
      cases res with
      | ok a =>
          obtain ⟨hres', hprog'⟩ := hf a rfl t hprog.faithful
          exact ⟨hres', hprog.trans hprog'⟩
      | error e => exact ⟨rfl, hprog.of_failure (List.subset_append_left N M)⟩

theorem map {x : Attempt ε α} {p : Except ε α} (hx : Conforms ctx x p N) (f : α → β) :
    Conforms ctx (f <$> x) (f <$> p) N := by
  have h := bind (q := fun a => .ok (f a)) hx fun a _ => pure (f a)
  rw [List.append_nil] at h
  cases p <;> exact h

/-- After a failure the same composites are gone through again. -/
theorem recover {x : Attempt ε α} {p : Except ε α} {handle : ε → Attempt ε' α}
    {q : ε → Except ε' α} (hx : Conforms ctx x p N)
    (hq : ∀ e, p = .error e → Conforms ctx (handle e) (q e) N) :
    Conforms ctx (x.recover handle) (Plain.recover p q) N := by
  intro s hs
  obtain ⟨hres, hprog⟩ := hx s hs
  rw [Attempt.recover_apply]
  cases hrun : x.run s with
  | mk res t =>
      rw [hrun] at hres hprog
      subst hres
      cases res with
      | ok a => exact ⟨rfl, hprog⟩
      | error e =>
          obtain ⟨hres', hprog'⟩ := hq e rfl t hprog.faithful
          exact ⟨hres', hprog.retry hprog'⟩

theorem mapFailure {x : Attempt ε α} {p : Except ε α} (hx : Conforms ctx x p N) (f : ε → ε') :
    Conforms ctx (x.mapFailure f) (p.mapError f) N := by
  have h := recover (q := fun e => .error (f e)) hx fun e _ => fail (f e) N
  cases p <;> exact h

theorem within {x : Attempt Failure α} {p : Except Failure α} (hx : Conforms ctx x p N)
    (seg : Segment) : Conforms ctx (Attempt.within seg x) (Plain.within seg p) N :=
  hx.mapFailure (Failure.within seg)

/-! ### filling open slots -/

section

variable {object : TypeName → Attempt Failure Signature}
variable {plain : TypeName → Except Failure Signature}

theorem expansion_shape (hobject : ∀ n, Conforms ctx (object n) (plain n) []) (subject : Shape) :
    Conforms ctx (Expansion.shape object subject) (Plain.Expansion.shape plain subject) [] := by
  induction subject with
  | prim k => exact pure _
  | array e ih | sequence e ih => exact bind (ih.within .element) fun s _ => pure _
  | object n => exact hobject n

theorem expansion_params (hobject : ∀ n, Conforms ctx (object n) (plain n) []) (index : Nat)
    (ps : List Param) :
    Conforms ctx (Expansion.params object index ps) (Plain.Expansion.params plain index ps) [] := by
  induction ps generalizing index with
  | nil => exact pure _
  | cons p ps ih =>
      have hshape := (expansion_shape hobject p.val).within (.argument index p.name)
      exact bind hshape fun s _ => bind (ih (index + 1)) fun args _ => pure _

end

theorem expansion_object (r : Registry) (opened : List TypeName) (n : TypeName) :
    Conforms ctx (Expansion.object r opened n) (Plain.Expansion.object r opened n) [] := by
  induction opened, n using Plain.Expansion.object.induct (r := r) with
  | case1 opened n hn =>
      rw [Expansion.object_eq, Plain.Expansion.object_eq, if_pos hn, if_pos hn]
      exact fail _ []
  | case2 opened n hn hr =>
      rw [Expansion.object_eq, Plain.Expansion.object_eq, if_neg hn, if_neg hn, hr]
      exact bind (record (.consult n)) fun _ _ => fail _ []
  | case3 opened n hn d hr hd =>
      simp only [Expansion.object_eq r opened, Plain.Expansion.object_eq r opened, if_neg hn, hr,
        hd]
      exact bind (record (.consult n)) fun _ _ => fail _ []
  | case4 opened n hn d hr first tail hd hlt ih =>
      simp only [Expansion.object_eq r opened, Plain.Expansion.object_eq r opened, if_neg hn, hr,
        hd]
      have hparams := expansion_params ih 0 first
      exact bind (record (.consult n)) fun _ _ => bind hparams fun args _ => pure _

theorem expand (r : Registry) (subject : Shape) :
    Conforms ctx (ShapeFit.expand r subject) (Plain.expand r subject) [] :=
  expansion_shape (expansion_object r []) subject

/-! ### choosing a constructor -/

section

variable {accept : List Param → Attempt Rejection (List Arg)}
variable {plain : List Param → Except Rejection (List Arg)}

theorem firstAccepted {ks : List Constructor}
    (haccept : ∀ k ∈ ks, Conforms ctx (accept k.params) (plain k.params) N) :
    Conforms ctx (Candidate.firstAccepted accept ks) (Plain.firstAccepted plain ks) N := by
  induction ks with
  | nil => exact fail [] N
  | cons k ks ih =>
      have hk := haccept k List.mem_cons_self
      have hks := ih fun k' hk' => haccept k' (List.mem_cons_of_mem k hk')
      exact (hk.map (k, ·)).recover fun r _ => hks.mapFailure (r :: ·)

theorem select {r : Registry} {c : Composite}
    (haccept : ∀ ps, ps.length = c.arity → Conforms ctx (accept ps) (plain ps) c.inner) :
    Conforms ctx (Candidate.select r c accept) (Plain.select r c plain) c.inner := by
  rw [Candidate.select]
  refine bind (q := fun _ => Plain.select r c plain) (record (.consult c.target)) fun _ _ => ?_
  rw [Plain.select]
  cases r.constructors? c.target with
  | none => exact fail _ _
  | some constructors =>
      have hfirst : Conforms ctx (Candidate.firstAccepted accept (Candidate.of c constructors))
          (Plain.firstAccepted plain (Candidate.of c constructors)) c.inner := by
        refine firstAccepted fun k hk => haccept k.params ?_
        simpa [Candidate.of, Constructor.arity] using (List.mem_filter.mp hk).2
      have hchosen := hfirst.mapFailure fun rejections =>
        (Candidate.mismatch c constructors rejections).here
      have hbind := bind hchosen fun a _ => pure (Resolution.mk a.1 ⟨c.target, a.2⟩)
      rw [List.append_nil] at hbind
      exact hbind

end

/-! ### composites and signatures -/

/-- A composite is looked up among what is staged, then among what was known before,
and is selected and staged if it is in neither. -/
theorem remember_run (table : Table) (c : Composite) (select : Attempt Failure Resolution)
    (s : Session) :
    (Fit.remember (some table) c select).run s =
      match s.staged.find? c, table.find? c with
      | some res, _ => (.ok res, s)
      | none, some res => (.ok res, s.record (.hit c))
      | none, none =>
        match select.run (s.record (.miss c)) with
        | (.ok res, t) => (.ok res, t.stage c res)
        | (.error f, t) => (.error f, t) := by
  rw [Fit.remember, Attempt.bind_apply, Attempt.staged?_apply]
  cases s.staged.find? c with
  | some res => rfl
  | none =>
      cases table.find? c with
      | some res => rfl
      | none =>
          change ((Attempt.record (.miss c) >>= fun _ => _) : Attempt Failure Resolution).run s = _
          rw [Attempt.bind_apply, Attempt.record_apply]
          change (select >>= fun _ => _).run _ = _
          rw [Attempt.bind_apply]
          cases select.run (s.record (.miss c)) with
          | mk res t => cases res <;> rfl

theorem remember {c : Composite} {select : Attempt Failure Resolution}
    (hselect : Conforms ctx select (Plain.composite ctx.registry ctx.widening c) c.inner) :
    Conforms ctx (Fit.remember ctx.memo? c select)
      (Plain.composite ctx.registry ctx.widening c) c.composites := by
  intro s hs
  cases hmemo : ctx.memo? with
  | none => exact (hselect s hs).imp_right fun hprog =>
      hprog.of_memo_none hmemo c.inner_subset
  | some table =>
      have hvisible : (ctx.visible s).find? c = (s.staged.find? c).or (table.find? c) := by
        rw [Context.visible, Table.find?_insertAll, Context.known, hmemo]
        rfl
      rw [remember_run]
      cases hstaged : s.staged.find? c with
      | some res =>
          rw [hstaged] at hvisible
          have hplain := hs.sound c res hvisible
          rw [hplain]
          exact ⟨rfl, .of_mem hs (Table.mem_keys_of_find? hvisible)⟩
      | none =>
          cases hknown : table.find? c with
          | some res =>
              rw [hstaged, hknown] at hvisible
              have hplain := hs.sound c res hvisible
              rw [hplain]
              exact ⟨rfl, (Progress.of_mem hs (Table.mem_keys_of_find? hvisible)).record _⟩
          | none =>
              rw [hstaged, hknown] at hvisible
              have hc := Table.not_mem_keys_of_find? hvisible
              obtain ⟨hres, hprog⟩ := hselect (s.record (.miss c)) hs
              have hprog' := ((Progress.refl hs).record (.miss c)).trans hprog
              cases hrun : select.run (s.record (.miss c)) with
              | mk res t =>
                  rw [hrun] at hres hprog'
                  cases res with
                  | ok res =>
                      rw [← hres] at hprog' ⊢
                      exact ⟨rfl, hprog'.stage (by rw [hmemo]; rfl) hc hres.symm⟩
                  | error f =>
                      rw [← hres] at hprog' ⊢
                      exact ⟨rfl, hprog'.of_failure c.inner_subset⟩

theorem args {as : List Arg} {ps : List Param} {position : Nat}
    (hargs : ∀ a ∈ as, ∀ x, Conforms ctx (Fit.signature ctx a.val x)
      (Plain.signature ctx.registry ctx.widening a.val x) a.val.composites)
    (hlen : ps.length = as.length) :
    Conforms ctx (Fit.args ctx position as ps)
      (Plain.args ctx.registry ctx.widening position as ps) (Signature.compositesArgs as) := by
  induction as generalizing ps position with
  | nil =>
      rw [List.eq_nil_of_length_eq_zero hlen, Fit.args, Plain.args]
      · exact pure []
      · nofun
      · nofun
  | cons a as ih =>
      cases ps with
      | nil => contradiction
      | cons p ps =>
          have hhead := (hargs a List.mem_cons_self p.val).mapFailure fun f =>
            (⟨position, f.within (.argument position a.name)⟩ : Rejection)
          have htail : Conforms ctx (Fit.args ctx (position + 1) as ps) _ _ :=
            ih (fun b hb => hargs b (List.mem_cons_of_mem a hb)) (Nat.succ.inj hlen)
          have hbind := bind hhead fun fitted _ => htail.map (⟨a.name, fitted⟩ :: ·)
          exact hbind

theorem signature (s : Signature) (x : Shape) :
    Conforms ctx (Fit.signature ctx s x) (Plain.signature ctx.registry ctx.widening s x)
      s.composites := by
  induction s generalizing x with
  | prim k => exact ofExcept _
  | list e ih =>
      rw [Fit.signature, Plain.signature]
      cases x.element? with
      | some y => exact ((ih y).within .element).map Signature.list
      | none => exact fail _ _
  | composite t as ih =>
      rw [Fit.signature, Plain.signature]
      by_cases hx : x = .object t
      · rw [if_pos hx, if_pos hx]
        have hselect : Conforms ctx _ (Plain.composite ctx.registry ctx.widening ⟨t, as⟩) _ :=
          select fun ps hlen => args ih hlen
        exact (remember hselect).map fun res => res.signature.toSignature
      · rw [if_neg hx, if_neg hx]
        exact fail _ _
  | wildcard => exact expand _ _

theorem composite (c : Composite) :
    Conforms ctx (Fit.composite ctx c) (Plain.composite ctx.registry ctx.widening c)
      c.composites := by
  have hselect : Conforms ctx _ (Plain.composite ctx.registry ctx.widening c) _ :=
    select fun ps hlen => args (fun a _ => signature a.val) hlen
  exact remember hselect

end Conforms

end ShapeFit

import InodeVolume.Proofs.TwinInodes

/-!
# Volumes on disks that are alike

Two volumes on disks that are alike in what is in use, with the same open, come to the same whatever is done
with them (`Twinned`). An action that only looks something up comes to what the names and contents say, and
those are the same in both volumes (`Twinned.of_leads`). An action that changes an inode is followed step by
step: what it does to the registry it does in both, and what it does on the disk is known from `Twins`.
-/

namespace InodeVolume

open Record

/-! ## Volumes side by side -/

/-- Volumes over disks that `T` relates, in which the same is open. -/
structure Volume.Paired (K : Regime) (T : Disk → Disk → Prop) (v w : Volume) : Prop where
  disk : T v.disk w.disk
  space : v.space = K.space
  space' : w.space = K.space
  registry : ∀ id : UInt32, w.registry[id]? = v.registry[id]?

section Rules

variable {K : Regime} {T : Disk → Disk → Prop} {T' : Except Error α → Disk → Disk → Prop}
  {A : Type} {a : A} {R : A → Volume → Prop} {S : Volume → Volume → Prop}

theorem Volume.Paired.mono {T₁ : Disk → Disk → Prop} {v w : Volume} (h : Volume.Paired K T v w)
    (hT : ∀ s t, T s t → T₁ s t) : Volume.Paired K T₁ v w := ⟨hT _ _ h.disk, h.space, h.space', h.registry⟩

/-- What is done on the disk alone. -/
theorem onDisk_echoes {x : SpaceMap → DiskM α} (hx : Echoes T (x K.space) T') :
    Echoes (Volume.Paired K T) (VolumeM.onDisk x) fun res v w =>
      ∃ r, res = raised r ∧ Volume.Paired K (T' r) v w := by
  intro v w h
  obtain ⟨hr, hT⟩ := hx _ _ h.disk
  rw [VolumeM.outcome_onDisk, VolumeM.outcome_onDisk, h.space, h.space', hr]
  exact ⟨rfl, _, rfl, hT, rfl, rfl, h.registry⟩

theorem onDisk_echo {T₁ : Disk → Disk → Prop} {x : SpaceMap → DiskM α}
    (hx : Echoes T (x K.space) fun _ => T₁) :
    Echoes (Volume.Paired K T) (VolumeM.onDisk x) fun _ => Volume.Paired K T₁ := by
  refine (onDisk_echoes hx).mono ?_
  rintro _ v w ⟨r, -, h⟩
  exact h

theorem insert_echo (id : UInt32) (node : OpenInode) :
    Echo (Volume.Paired K T) (VolumeM.changeRegistry (·.insert id node)) := by
  refine fun v w h => ⟨rfl, h.disk, h.space, h.space', fun i => ?_⟩
  show (w.registry.insert id node)[i]? = (v.registry.insert id node)[i]?
  rw [Registry.getElem?_insert, Registry.getElem?_insert, h.registry]

theorem erase_echo (id : UInt32) : Echo (Volume.Paired K T) (VolumeM.changeRegistry (·.erase id)) := by
  refine fun v w h => ⟨rfl, h.disk, h.space, h.space', fun i => ?_⟩
  show (w.registry.erase id)[i]? = (v.registry.erase id)[i]?
  rw [Registry.getElem?_erase, Registry.getElem?_erase, h.registry]

/-- Going on from what an action reports. A misuse ends both runs. -/
theorem Echoes.attemptVolumeBind {β : Type} {x : VolumeM α} {f : Except Error α → VolumeM β}
    {M : Except Stop α → Volume → Volume → Prop} {T₁ : Except Stop β → Volume → Volume → Prop}
    (hx : Echoes S x M) (hok : ∀ v, Echoes (M (.ok v)) (f (.ok v)) T₁)
    (herr : ∀ e, Echoes (M (.error (.failed e))) (f (.error e)) T₁)
    (hmisuse : ∀ rule v w, M (.error (.misused rule)) v w → T₁ (.error (.misused rule)) v w) :
    Echoes S (VolumeM.attempt x >>= f) T₁ := by
  -- An attempt hands on an error that has been reported, and ends with a broken rule.
  refine Echoes.bind (M := fun r v w => ∃ r', r = handled r' ∧ M r' v w) ?_ ?_ ?_
  · intro v w h
    obtain ⟨hr, hM⟩ := hx v w h
    rw [VolumeM.outcome_attempt, VolumeM.outcome_attempt, hr]
    exact ⟨rfl, _, rfl, hM⟩
  · rintro r v w ⟨(e | rule) | v', hr, hM⟩
    · cases hr
      exact herr e v w hM
    · cases hr
    · cases hr
      exact hok v' v w hM
  · rintro e v w ⟨(e' | rule) | v', hr, hM⟩
    · cases hr
    · cases hr
      exact hmisuse rule v w hM
    · cases hr

theorem Echoes.ignoring {S₁ : Volume → Volume → Prop} {x : VolumeM Unit} (hx : Echoes S x fun _ => S₁) :
    Echoes S (VolumeM.ignoring x) fun _ => S₁ :=
  Echoes.attemptVolumeBind hx (fun _ => Echo.pure ()) (fun _ => Echo.pure ()) fun _ _ _ h => h

/-- An action that is taken back if it fails. -/
theorem Echoes.leadsOrUndo {S₁ : Volume → Volume → Prop} {x undo : VolumeM Unit}
    {M : Except Stop Unit → A → Prop} {T₁ : Except Stop Unit → Volume → Volume → Prop}
    (hl : Leads R a x M) (hsober : ∀ r b, M r b → Sober r) (hx : Echoes (Beside R a S) x T₁)
    (hok : ∀ v w, T₁ (.ok ()) v w → S₁ v w)
    (hundo : ∀ e b, M (.error (.failed e)) b →
      Echoes (Beside R b (T₁ (.error (.failed e)))) undo fun _ => S₁) :
    Echoes (Beside R a S) (Volume.orUndo x undo) fun _ => S₁ := by
  refine Echoes.attemptVolumeBind (Echoes.leads hl hx) (fun _ => Echoes.pure ?_) (fun e => ?_) ?_
  · rintro v w ⟨b, -, -, h⟩
    exact hok v w h
  · rintro v w ⟨b, hM, h⟩
    exact (Echoes.bind (hundo e b hM) (fun _ => Echo.throw _) fun _ _ _ h => h) v w h
  · rintro rule v w ⟨b, hM, -⟩
    exact absurd rfl (hsober _ b hM rule)

end Rules

/-! ## Volumes that are alike -/

variable {K : Regime} {W : World} {st : Store} {α β : Type} {x : VolumeM α} {f : α → VolumeM β} {v : α}

/-- The same pool on another store. -/
def Pool.onStore (P : Pool) (st : Store) : Pool := { P with store := st }

/-- The same world on another store. -/
def World.onStore (W : World) (st : Store) : World := { W with pool := W.pool.onStore st }

/-- What is stored in a pool is stored alike in a store that is alike. -/
theorem Pool.Sound.onStore {P : Pool} (hK : K.Fits) (hP : P.Sound K) (ha : P.store.Alike K [] st) :
    (P.onStore st).Sound K := by
  -- The blocks of inodes are in use, so the other store has the same bytes there.
  have hsame (id b : UInt32) (hb : b ∈ P.area id) (hplain : K.Plain b.toNat) :
      st.data b.toNat = P.store.data b.toNat := ha.data _ hplain (hP.used id b hb) (by simp)
  refine ⟨fun id n hn => ?_, hP.place, hP.held, hP.nodup, hP.apart, fun id b hb => ?_, fun i hi => ?_,
    fun hf i hi => hP.exact hf i ?_⟩
  · have hn : P.nodes id = some n := hn
    have hstored := hP.stored id n hn
    refine hstored.congr ?_ fun b hb => ?_
    · exact hsame id id (Pool.mem_area_blocks (Pool.mem_blocks_self hn)) ((hP.place id (by simp [hn])).plain hK)
    · exact hsame id b (Pool.mem_area_blocks (Pool.mem_blocks_owned hn hb)) (hstored.owned_data hb).plain
  · show st.used b.toNat = true
    rw [ha.used]
    exact hP.used id b hb
  · show st.used i = true
    rw [ha.used]
    exact hP.reserved i hi
  · have hi : st.used i = true := hi
    rwa [ha.used] at hi

/-- Two volumes, the first of which shows `W`, on disks that are alike but for the blocks of `X`. -/
abbrev Volume.Twins (K : Regime) (X : List UInt32) : World → Volume → Volume → Prop := fun W =>
  Beside (Mounts K) W (Volume.Paired K (InodeVolume.Twins K X))

/-- The action comes to the same on volumes that show `W` and are alike, and leaves them alike. -/
abbrev Twinned (K : Regime) (W : World) (x : VolumeM α) : Prop :=
  Echoes (Volume.Twins K [] W) x fun _ => Volume.Paired K (Twins K [])

/-- The twin of a volume shows the same world on another store. -/
theorem Volume.Twins.mounts (hK : K.Fits) {v w : Volume} (h : Volume.Twins K [] W v w) :
    ∃ st, W.pool.store.Alike K [] st ∧ Mounts K (W.onStore st) w := by
  obtain ⟨hv, hp⟩ := h
  obtain ⟨st, hs, ha⟩ := hp.disk.shows hK.mapped hv.disk.shows
  exact ⟨st, ha, ⟨hs, hv.disk.sound.onStore hK ha⟩, hp.space', fun id => (hp.registry id).trans (hv.registry id),
    hv.live⟩

/-- Volumes that show one world on stores that are alike. -/
theorem Volume.Paired.of_mounts (hf : ¬K.faulty) {v w : Volume} (hv : Mounts K W v)
    (hw : Mounts K (W.onStore st) w) (ha : W.pool.store.Alike K [] st) :
    Volume.Paired K (InodeVolume.Twins K []) v w :=
  ⟨.of_shows hf hv.disk.shows hw.disk.shows ha, hv.space, hw.space,
    fun id => (hw.registry id).trans (hv.registry id).symm⟩

/-- What is known of the disks of two volumes. -/
theorem Volume.Twins.paired {X : List UInt32} {v w : Volume} (h : Volume.Twins K X W v w) :
    Volume.Paired K (Beside (Holds K) W.pool (InodeVolume.Twins K X)) v w :=
  ⟨⟨h.1.disk, h.2.disk⟩, h.2.space, h.2.space', h.2.registry⟩

namespace Twinned

/-- An action that does the same whatever it works on. -/
theorem of_echo (h : Echo (Volume.Paired K (Twins K [])) x) : Twinned K W x := h.of_imp fun _ _ h => h.2

/-- An action whose outcome does not depend on the store, and which leaves the store as it is. -/
theorem of_leads (hK : K.Fits) (hf : ¬K.faulty) (W' : World) {r : Except Stop α}
    (h : ∀ st, Leads (Mounts K) (W.onStore st) x fun r' V => r' = r ∧ V = W'.onStore st)
    (hpool : W'.pool = W.pool) :
    Twinned K W x := by
  rintro v w hvw
  obtain ⟨st, ha, hw⟩ := hvw.mounts hK
  -- Whatever store the world is on, the answer is the same, and so is the world that it leads to.
  have hrun (st₀ : Store) {v₀ : Volume} (hv₀ : Mounts K (W.onStore st₀) v₀) :
      (outcome x v₀).1 = r ∧ Mounts K (W'.onStore st₀) (outcome x v₀).2 := by
    obtain ⟨V, hV, hr, rfl⟩ := (h st₀).comes hv₀
    exact ⟨hr, hV⟩
  obtain ⟨hr, hv'⟩ := hrun W.pool.store hvw.1
  obtain ⟨hr', hw'⟩ := hrun st hw
  rw [hr, hr']
  rw [← hpool] at hv' ha
  exact ⟨rfl, .of_mounts hf hv' hw' ha⟩

/-- Looking something up. -/
theorem of_yields (hK : K.Fits) (hf : ¬K.faulty) (W' : World)
    (h : ∀ st, Yields (Mounts K) (W.onStore st) x v (W'.onStore st)) (hpool : W'.pool = W.pool) :
    Twinned K W x :=
  of_leads hK hf W' h hpool

theorem pure (v : α) : Twinned K W (Pure.pure v) := of_echo (Echo.pure v)

theorem fail (e : Error) : Twinned K W (VolumeM.fail e : VolumeM α) := of_echo (Echo.throw _)

theorem failBind (e : Error) : Twinned K W (VolumeM.fail e >>= f) := Echoes.throwBind fun _ _ h => h.2

theorem bind {M : Except Stop α → World → Prop} (hl : Leads (Mounts K) W x M) (hx : Twinned K W x)
    (hok : ∀ v W', M (.ok v) W' → Twinned K W' (f v)) : Twinned K W (x >>= f) :=
  Echoes.leadsBind hl hx hok fun _ _ _ _ _ h => h

/-- Going on from what has been looked up. -/
theorem seek (hK : K.Fits) (hf : ¬K.faulty) (W' : World)
    (h : ∀ st, Yields (Mounts K) (W.onStore st) x v (W'.onStore st)) (hpool : W'.pool = W.pool)
    (hv : Twinned K W' (f v)) :
    Twinned K W (x >>= f) := by
  have hx : Twinned K W x := of_yields hK hf W' h hpool
  obtain ⟨P, opens⟩ := W
  obtain ⟨P', opens'⟩ := W'
  obtain rfl : P' = P := hpool
  refine bind (h P'.store) hx ?_
  rintro u V ⟨hu, rfl⟩
  cases hu
  exact hv

/-- An action and what is done after it in any case. -/
theorem andThen {M : Except Stop α → World → Prop} {cleanup : VolumeM Unit} (hl : Leads (Mounts K) W x M)
    (hx : Twinned K W x) (hclean : ∀ r W', M r W' → Twinned K W' cleanup) :
    Twinned K W (x.andThen cleanup) := by
  have hafter (q : Except Stop α) (r : Except Error α) : Echoes (fun v w => ∃ W', M q W' ∧
      Volume.Twins K [] W' v w) (cleanup >>= fun _ => VolumeM.resume r) fun _ => Volume.Paired K (Twins K []) := by
    rintro v w ⟨W', hM, h⟩
    have hresume : Echo (Volume.Paired K (Twins K [])) (VolumeM.resume r) := by
      cases r with
      | ok u => exact Echo.pure u
      | error e => exact Echo.throw _
    exact (Echoes.bind (hclean _ W' hM) (fun _ => hresume) fun _ _ _ h => h) v w h
  exact Echoes.attemptVolumeBind (Echoes.leads hl hx) (fun _ => hafter _ _) (fun _ => hafter _ _)
    fun _ _ _ ⟨_, _, h⟩ => h.2

/-- What is known of a world that a volume shows may be used. -/
theorem of_shown (h : ∀ v, Mounts K W v → Twinned K W x) : Twinned K W x := fun v w hvw => h v hvw.1 v w hvw

/-- Something is made of the value of an action. -/
theorem map (g : α → β) (hx : Twinned K W x) : Twinned K W (x >>= fun v => Pure.pure (g v)) :=
  Echoes.bind hx (fun _ => Echo.pure _) fun _ _ _ h => h

/-- Looking for an inode. -/
theorem of_arrives (hK : K.Fits) (hf : ¬K.faulty) {g : UInt32 → α} (r : Except Error UInt32)
    (h : ∀ st, Leads (Mounts K) (W.onStore st) x ((W.onStore st).Arrives g r)) : Twinned K W x := by
  cases r with
  | error e => exact of_leads hK hf W h rfl
  | ok y => exact of_leads hK hf (W.opened y) h rfl

end Twinned

/-- The action comes to `Q`, and to the same on volumes that are alike. -/
structure Mirrored (K : Regime) (W : World) (x : VolumeM α) (Q : Except Stop α → World → Prop) : Prop where
  leads : Leads (Mounts K) W x Q
  twinned : Twinned K W x

namespace Mirrored

variable {Q Q' : Except Stop α → World → Prop} {M : Except Stop α → World → Prop}
  {N : Except Stop β → World → Prop} {e : Error}

theorem mono (h : Mirrored K W x Q) (hQ : ∀ r V, Q r V → Q' r V) : Mirrored K W x Q' :=
  ⟨h.leads.mono hQ, h.twinned⟩

theorem pure (h : Q (.ok v) W) : Mirrored K W (Pure.pure v) Q := ⟨Leads.pure h, .pure v⟩

theorem fail (h : Q (.error (.failed e)) W) : Mirrored K W (VolumeM.fail e) Q := ⟨Leads.fail h, .fail e⟩

theorem misuse (rule : Misuse) (h : Q (.error (.misused rule)) W) : Mirrored K W (VolumeM.misuse rule) Q :=
  ⟨Leads.throw h, .of_echo (Echo.throw _)⟩

theorem failBind (h : N (.error (.failed e)) W) : Mirrored K W (VolumeM.fail e >>= f) N :=
  ⟨Leads.failBind h, .failBind e⟩

theorem bind (hx : Mirrored K W x M) (hok : ∀ v V, M (.ok v) V → Mirrored K V (f v) N)
    (herr : ∀ e V, M (.error e) V → N (.error e) V) : Mirrored K W (x >>= f) N :=
  ⟨Leads.bind hx.leads (fun v V h => (hok v V h).leads) herr,
    .bind hx.leads hx.twinned fun v V h => (hok v V h).twinned⟩

/-- Going on from what has been looked up. -/
theorem seek (hK : K.Fits) (hf : ¬K.faulty) (V : World)
    (h : ∀ st, Yields (Mounts K) (W.onStore st) x v (V.onStore st)) (hpool : V.pool = W.pool)
    (hv : Mirrored K V (f v) N) : Mirrored K W (x >>= f) N := by
  refine ⟨Yields.bind (h W.pool.store) ?_, .seek hK hf V h hpool hv.twinned⟩
  rw [← hpool]
  exact hv.leads

theorem of_yields (hK : K.Fits) (hf : ¬K.faulty) (V : World)
    (h : ∀ st, Yields (Mounts K) (W.onStore st) x v (V.onStore st)) (hpool : V.pool = W.pool)
    (hQ : Q (.ok v) V) : Mirrored K W x Q := by
  refine ⟨Yields.leads (h W.pool.store) ?_, .of_yields hK hf V h hpool⟩
  rw [← hpool]
  exact hQ

/-- What is known of a world that a volume shows may be used. -/
theorem of_shown (h : ∀ u, Mounts K W u → Mirrored K W x Q) : Mirrored K W x Q :=
  ⟨Leads.of_shown fun u hu => (h u hu).leads, .of_shown fun u hu => (h u hu).twinned⟩

/-- Going on from what an action reports. -/
theorem attemptBind {g : Except Error α → VolumeM β} (hx : Mirrored K W x M) (hsober : ∀ r V, M r V → Sober r)
    (hok : ∀ v V, M (.ok v) V → Mirrored K V (g (.ok v)) N)
    (herr : ∀ e V, M (.error (.failed e)) V → Mirrored K V (g (.error e)) N) :
    Mirrored K W (VolumeM.attempt x >>= g) N := by
  refine ⟨Leads.attemptVolumeBind hx.leads hsober (fun v V h => (hok v V h).leads)
    fun e V h => (herr e V h).leads, ?_⟩
  refine Echoes.attemptVolumeBind (Echoes.leads hx.leads hx.twinned) (fun v => ?_) (fun e => ?_)
    fun _ _ _ ⟨_, _, h⟩ => h.2
  · rintro u w ⟨V, hM, h⟩
    exact (hok v V hM).twinned u w h
  · rintro u w ⟨V, hM, h⟩
    exact (herr e V hM).twinned u w h

/-- An action and what is done after it in any case. -/
theorem andThen {cleanup : VolumeM Unit} (hx : Mirrored K W x M) (hsober : ∀ r V, M r V → Sober r)
    (hclean : ∀ r V, M r V → Mirrored K V cleanup fun u V' => u = .ok () ∧ Q r V') :
    Mirrored K W (x.andThen cleanup) Q := by
  refine attemptBind hx hsober (fun v V h => ?_) fun e V h => ?_
  · refine bind (hclean _ V h) (fun _ V' h' => pure h'.2) ?_
    rintro e V' ⟨he, -⟩
    cases he
  · refine bind (hclean _ V h) (fun _ V' h' => fail h'.2) ?_
    rintro e V' ⟨he, -⟩
    cases he

/-- An action that is taken back if it fails. -/
theorem orUndo {y undo : VolumeM Unit} {L R : Except Stop Unit → World → Prop} (hy : Mirrored K W y L)
    (hsober : ∀ r V, L r V → Sober r) (hok : ∀ V, L (.ok ()) V → R (.ok ()) V)
    (hundo : ∀ e V, L (.error (.failed e)) V →
      Mirrored K V undo fun u V' => u = .ok () ∧ R (.error (.failed e)) V') :
    Mirrored K W (Volume.orUndo y undo) R := by
  refine attemptBind hy hsober (fun _ V h => pure (hok V h)) fun e V h => ?_
  refine bind (hundo e V h) (fun _ V' h' => fail h'.2) ?_
  rintro e V' ⟨he, -⟩
  cases he

theorem ignoring {y : VolumeM Unit} {L R : Except Stop Unit → World → Prop} (hy : Mirrored K W y L)
    (h : ∀ r V, L r V → Sober r ∧ R (.ok ()) V) : Mirrored K W (VolumeM.ignoring y) R :=
  attemptBind hy (fun r V hr => (h r V hr).1) (fun _ V hr => pure (h _ V hr).2) fun _ V hr => pure (h _ V hr).2

/-- Looking for an inode. -/
theorem of_arrives (hK : K.Fits) (hf : ¬K.faulty) {g : UInt32 → α} {r : Except Error UInt32}
    (h : ∀ st, Leads (Mounts K) (W.onStore st) x ((W.onStore st).Arrives g r)) :
    Mirrored K W x (W.Arrives g r) :=
  ⟨h W.pool.store, .of_arrives hK hf r h⟩

end Mirrored

/-! ## Open inodes -/

namespace Inode

variable {id : UInt32} {n : Node} {o : Opening} {held : List UInt32}

theorem entry_echo {T : Disk → Disk → Prop} (i : Inode) : Echo (Volume.Paired K T) i.entry := by
  have hout (v : Volume) :
      outcome i.entry v = (v.registry[i.number]?.elim (.error (.misused .notOpen)) .ok, v) := by
    simp only [outcome, entry, VolumeM.registry, Bind.bind, EStateM.bind]
    cases v.registry[i.number]? <;> rfl
  intro v w h
  rw [hout, hout, h.registry]
  exact ⟨rfl, h⟩

theorem checkWritable_echo {T : Disk → Disk → Prop} (i : Inode) :
    Echo (Volume.Paired K T) i.checkWritable := by
  refine (entry_echo i).bind fun node => ?_
  split
  · exact Echo.throw _
  · exact Echo.pure ()

/-- The entry of an open inode is looked up. -/
theorem entry_twinned (hK : K.Fits) (hf : ¬K.faulty) (hn : W.pool.nodes id = some n)
    (ho : W.opens id = some o) {f : OpenInode → VolumeM β}
    (h : Twinned K W (f ⟨o.openers, o.removed, o.denials, n.record⟩)) :
    Twinned K W (Inode.entry ⟨id⟩ >>= f) :=
  Twinned.seek hK hf W (fun st => open_entry_yields (W := W.onStore st) hn ho) rfl h

theorem grow_twinned (hK : K.Fits) (hf : ¬K.faulty) (hn : W.pool.nodes id = some n)
    (ho : W.opens id = some o) (target : Nat) : Twinned K W (grow ⟨id⟩ target) := by
  refine entry_twinned hK hf hn ho ?_
  have hgrow := onDisk_echo (K := K) (x := fun m => n.record.grow m id target)
    (Pool.grow_twins (X := []) hK hf hn (by simp) target)
  exact Echoes.bind (hgrow.of_imp fun _ _ h => h.paired) (fun _ => insert_echo _ _) fun _ _ _ h => h

/-- Only the last close of a removed inode has to do with the disk. -/
theorem close_twinned (hK : K.Fits) (hf : ¬K.faulty) (ho : W.opens id ≠ none) : Twinned K W (close ⟨id⟩) := by
  refine Twinned.of_shown fun v hv => ?_
  obtain ⟨n, hn⟩ := Option.ne_none_iff_exists'.1 (hv.live id ho)
  obtain ⟨o, ho⟩ := Option.ne_none_iff_exists'.1 ho
  refine entry_twinned hK hf hn ho ?_
  dsimp only
  by_cases hmore : 1 < o.openers
  · rw [if_pos hmore]
    exact .of_echo (insert_echo _ _)
  rw [if_neg hmore]
  -- Without its entry the inode is in no world, so from here on only the disks are related.
  refine (Echoes.bind (erase_echo id) (fun _ => ?_) fun _ _ _ h => h.mono fun _ _ h => h.2).of_imp
    fun _ _ h => h.paired
  by_cases hremoved : o.removed = true
  · rw [if_pos hremoved]
    exact Echoes.ignoring (onDisk_echo (Pool.dissolve_twins hK hf hn (by simp)))
  · rw [if_neg hremoved]
    exact Echoes.pure fun _ _ h => h.mono fun _ _ h => h.2

theorem transfer_write_twinned (hK : K.Fits) (hf : ¬K.faulty) (hn : W.pool.nodes id = some n) {offset : Nat}
    {data : ByteArray} (hend : offset + data.size ≤ n.size) :
    Twinned K W (VolumeM.transfer (n.record.write offset data)) := by
  rw [VolumeM.transfer_eq]
  exact (onDisk_echo (Pool.write_twins hK hf hn (by simp) hend)).of_imp fun _ _ h => h.paired

/-- Writing comes to the same on volumes that are alike where it looks. -/
theorem write_twinned (hK : K.Fits) (hf : ¬K.faulty) (hn : W.pool.nodes id = some n)
    (ho : W.opens id = some o) (offset : Nat) (data : ByteArray) :
    Twinned K W (write ⟨id⟩ offset data) := by
  refine Twinned.bind (checkWritable_leads hn ho) (.of_echo (checkWritable_echo _)) ?_
  rintro _ W' ⟨rfl, -⟩
  by_cases hempty : data.isEmpty = true
  · rw [if_pos hempty]
    exact .pure 0
  rw [if_neg hempty]
  refine Twinned.seek hK hf W' (fun st => length_yields (W := W'.onStore st) hn ho) rfl ?_
  -- What is written behind the end needs room first, and then the write lies inside on both.
  by_cases hlong : n.size < offset + data.size
  · rw [if_pos hlong]
    refine Twinned.bind (grow_leads hK hn ho _) (grow_twinned hK hf hn ho _) ?_
    rintro _ W₁ (⟨n₁, -, hbecomes, hgrown⟩ | ⟨e, hv, -⟩)
    swap
    · cases hv
    refine entry_twinned hK hf hbecomes.node (by rw [hbecomes.opens, ho]) ?_
    exact transfer_write_twinned hK hf hbecomes.node (by rw [hgrown.size]; omega)
  · rw [if_neg hlong]
    exact entry_twinned hK hf hn ho (transfer_write_twinned hK hf hn (by omega))

/-- The blocks of the contents are given back after the emptied record is stored, and are held until then. -/
theorem clear_twinned (hK : K.Fits) (hf : ¬K.faulty) (hn : W.pool.nodes id = some n)
    (ho : W.opens id = some o) : Twinned K W (clear ⟨id⟩) := by
  refine Twinned.bind (checkWritable_leads hn ho) (.of_echo (checkWritable_echo _)) ?_
  rintro _ W' ⟨rfl, -⟩
  refine entry_twinned hK hf hn ho ?_
  have htruncate := onDisk_echoes (K := K) (x := fun _ => Record.truncate id n.record)
    (Echoes.leads (Pool.truncate_leads hK hn) (Pool.truncate_twins (X := []) hK hf hn (by simp)))
  refine Echoes.bind (htruncate.of_imp fun _ _ h => h.paired) (fun r => ?_) ?_
  · obtain ⟨blocks, record⟩ := r
    -- Between storing the record and giving the blocks back these are held by nothing, on both volumes.
    have hrelease : Echo (Volume.Paired K fun s t => ∃ P : Pool, P.held = blocks ++ W'.pool.held ∧
        Beside (Holds K) P (Twins K []) s t) (setEntry ⟨id⟩ ⟨o.openers, o.removed, o.denials, record⟩) :=
      insert_echo id _
    refine (Echoes.bind hrelease (fun _ => onDisk_echo (x := fun m => m.releaseEach blocks) ?_)
      fun _ _ _ h => h.mono fun _ _ ⟨_, _, h⟩ => h.2).of_imp ?_
    · rintro s t ⟨P, hheld, h⟩
      exact Pool.releaseEach_twins hK hf hheld s t h
    · rintro v w ⟨r, hr, hvw⟩
      refine hvw.mono ?_
      rintro s t ⟨P, ⟨l, n', rfl, -, -, hheld, -⟩ | ⟨hfaulty, -⟩, h⟩
      · cases hr
        exact ⟨P, hheld, h⟩
      · exact absurd hfaulty hf
  · rintro e v w ⟨r, -, h⟩
    exact h.mono fun _ _ ⟨_, _, h⟩ => h.2

/-- Storing a new inode under a block that is held. -/
theorem create_twins (hK : K.Fits) (hf : ¬K.faulty) (hheld : W.pool.held = id :: held) (size : Nat)
    (isDirectory : Bool) :
    Echoes (Volume.Twins K [id] W) (create id size isDirectory)
      fun res => Volume.Paired K (Twins K (unstored [id] [] res)) := by
  refine ((onDisk_echoes (Pool.create_twins hK hf hheld)).of_imp fun _ _ h => h.paired).mono ?_
  rintro _ v w ⟨r, rfl, h⟩
  cases r <;> exact h

end Inode

namespace VolumeM

/-- The block that is taken is left out of account. -/
theorem allocate_twins (hK : K.Fits) (hf : ¬K.faulty) :
    Echoes (Volume.Twins K [] W) (allocate 1) fun res => Volume.Paired K (Twins K (taken [] res)) := by
  refine ((onDisk_echoes (x := fun m => m.allocate 1) (InodeVolume.allocate_twins hK hf)).of_imp
    fun v w h => h.paired.mono fun s t h => ⟨h.1.shows, h.2⟩).mono ?_
  rintro _ v w ⟨r, rfl, h⟩
  cases r <;> exact h

/-- A block that is given back need not be left out of account any more. -/
theorem unused_twins (hK : K.Fits) (hf : ¬K.faulty) {b : UInt32} (hheld : b ∈ W.pool.held) :
    Echoes (Volume.Twins K [b] W) (VolumeM.ignoring (VolumeM.release b 1))
      fun _ => Volume.Paired K (Twins K []) := by
  refine Echoes.ignoring ((onDisk_echo (x := fun m => m.release b 1) ?_).of_imp fun _ _ h => h.paired)
  exact Pool.echoes_of_sound fun hP => release_twins hK hf ((hP.held b hheld).plain hK).1
    (hP.used b b (Pool.mem_area_held hheld)) (by simp)

end VolumeM

end InodeVolume

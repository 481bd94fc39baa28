import InodeVolume.Proofs.FileModel
import InodeVolume.Proofs.SuccessfulCalls
import InodeVolume.Proofs.Views

/-!
# Volumes refine byte arrays

Where no access fails, a world in order is a state of the model (`World.model`): every stored inode is an
array of bytes or a table of names, wherever its blocks are. What a call comes to is a step of the model
(`Call.Comes.models`), so every run of a client is a run of the model with the same answers
(`Client.Runs.models`), from the state that formatting leaves on.
-/

namespace InodeVolume

open Record

/-! ## Inodes as objects -/

namespace Node

/-- What an inode is to a client. -/
def object (n : Node) : Object := if n.record.isDirectory then .directory n.child else .file n.contents

variable {n n' : Node}

theorem object_file (h : n.record.isDirectory = false) : n.object = .file n.contents := by
  rw [object, h, if_neg (by decide)]

theorem object_directory (h : n.record.isDirectory = true) : n.object = .directory n.child := by
  rw [object, h, if_pos rfl]

@[simp] theorem size_contents (n : Node) : n.contents.size = n.size := size_bytesFrom ..

/-- The bytes of an inode are those of its contents, as there are zeros behind them. -/
theorem byteOf_contents (htail : ∀ i, n.size ≤ i → n.byte i = 0) : byteOf n.contents = n.byte := by
  funext i
  by_cases hi : i < n.size
  · rw [byteOf_of_lt (by simpa using hi)]
    simp only [contents]
    rw [getElem_bytesFrom, Nat.zero_add]
  · rw [htail i (Nat.le_of_not_lt hi), byteOf, dif_neg (by simpa using hi)]

/-- A part of the contents, as far as they reach. -/
theorem contents_extract (n : Node) (offset count : Nat) :
    n.contents.extract offset (offset + count) = bytesFrom n.byte offset (min count (n.size - offset)) := by
  refine ByteArray.ext_getElem ?_ fun i hx hy => ?_
  · rw [ByteArray.size_extract, size_contents, size_bytesFrom]
    omega
  · rw [ByteArray.getElem_extract, getElem_bytesFrom]
    simp only [contents]
    rw [getElem_bytesFrom, Nat.zero_add]

theorem contents_eq {data : ByteArray} (hsize : n.size = data.size)
    (hbyte : ∀ i, i < data.size → n.byte i = byteOf data i) : n.contents = data := by
  apply ByteArray.ext_getElem
  · simpa using hsize
  · intro i hi hi'
    simp only [contents]
    rw [getElem_bytesFrom, Nat.zero_add, hbyte i hi', byteOf_of_lt hi']

theorem contents_zeros (hbyte : n.byte = fun _ => 0) : n.contents = zeros n.size := by
  rw [contents, hbyte, zeros]

theorem contents_empty (hsize : n.size = 0) : n.contents = zeros 0 := by
  rw [contents, hsize]
  rfl

end Node

/-! ## Worlds as states of the model -/

/-- The state of the model that a world is, with the handles that are open in it. -/
def World.model (W : World) (handles : List Handle) : Model where
  objects x := (W.pool.nodes x).map Node.object
  removed := W.Doomed
  handles := handles

namespace World

variable {K : Regime} {W W' : World} {T : Hierarchy} {handles : List Handle} {x t b : UInt32}
  {n n' m : Node} {o : Opening} {path cwd absolute : String} {size : Nat} {isDirectory : Bool}

@[simp] theorem model_handles (W : World) (handles : List Handle) : (W.model handles).handles = handles := rfl

theorem model_object (hn : W.pool.nodes x = some n) : (W.model handles).objects x = some n.object :=
  congrArg (Option.map Node.object) hn

theorem model_file (hn : W.pool.nodes x = some n) (h : n.record.isDirectory = false) :
    (W.model handles).objects x = some (.file n.contents) := by
  rw [model_object hn, Node.object_file h]

theorem model_directory (hn : W.pool.nodes x = some n) (h : n.record.isDirectory = true) :
    (W.model handles).objects x = some (.directory n.child) := by
  rw [model_object hn, Node.object_directory h]

theorem model_none (hn : W.pool.nodes x = none) : (W.model handles).objects x = none :=
  congrArg (Option.map Node.object) hn

/-- The names of the model are those of the pool. -/
theorem model_names (W : World) (handles : List Handle) : (W.model handles).names = W.pool.names := by
  -- Names lie in directories only, and these are the same in the model.
  have hchild (d : UInt32) (name : String) : (W.model handles).names.child d name = W.pool.child d name := by
    simp only [Model.names, model, Pool.child]
    cases W.pool.nodes d with
    | none => rfl
    | some n =>
      cases hdir : n.record.isDirectory <;> simp [Node.object, hdir]
  have hdirectory (x : UInt32) : (W.model handles).names.isDirectory x = W.pool.isDirectory x := by
    simp only [Model.names, model, Pool.isDirectory]
    cases W.pool.nodes x with
    | none => rfl
    | some n =>
      cases hdir : n.record.isDirectory <;> simp [Node.object, hdir]
  rw [Pool.names, Names.mk.injEq]
  exact ⟨funext fun d => funext (hchild d), funext hdirectory⟩

theorem model_find (W : World) (handles : List Handle) (path cwd : String) :
    (W.model handles).find path cwd = (Path.toAbsolute path cwd).bind W.pool.find := by
  rw [Model.find, model_names]

/-- A world is a state of the model that has the same objects and the same inodes to be given up. -/
theorem model_eq_of {M : Model} (hobjects : ∀ x, (W.pool.nodes x).map Node.object = M.objects x)
    (hremoved : ∀ x, W.Doomed x ↔ M.removed x) : W.model M.handles = M := by
  obtain ⟨objects, removed, handles⟩ := M
  rw [model, Model.mk.injEq]
  exact ⟨funext hobjects, funext fun x => propext (hremoved x), rfl⟩

/-- Two worlds are the same state of the model if the same inodes are to be given up and every inode is the
same object. -/
theorem model_eq (hnodes : ∀ x, (W'.pool.nodes x).map Node.object = (W.pool.nodes x).map Node.object)
    (hdoomed : ∀ x, W'.Doomed x ↔ W.Doomed x) (handles : List Handle) : W'.model handles = W.model handles :=
  model_eq_of (M := W.model handles) hnodes hdoomed

/-- A world in which one inode has become another object. -/
theorem model_put {o : Option Object} (hnode : (W'.pool.nodes x).map Node.object = o)
    (hothers : ∀ y, y ≠ x → W'.pool.nodes y = W.pool.nodes y) (hopens : W'.opens = W.opens)
    (handles : List Handle) : W'.model handles = (W.model handles).put x o := by
  refine model_eq_of (M := (W.model handles).put x o) (fun y => ?_) fun y => doomed_congr hopens y
  rw [Model.put_objects]
  by_cases hy : y = x
  · rw [hy, Function.update_self, hnode]
  · rw [Function.update_of_ne hy, hothers y hy]
    rfl

theorem Becomes.model (h : W.Becomes x n' W') (handles : List Handle) :
    W'.model handles = (W.model handles).put x (some n'.object) :=
  model_put (congrArg _ h.node) (fun _ hy => h.node_of_ne hy) h.opens handles

theorem Stays.model (h : W.Stays K W') (handles : List Handle) : W'.model handles = W.model handles :=
  model_eq (fun x => by rw [h.nodes]) (doomed_congr h.opens) handles

/-- What has been undone cannot be seen in the model. -/
theorem Undone.model (hf : ¬K.faulty) (h : W.Undone K T W') (handles : List Handle) :
    W'.model handles = W.model handles := by
  obtain ⟨-, hsame⟩ := h.order.resolve_right fun hfaulty => hf hfaulty.1
  refine model_eq (fun x => ?_) (doomed_congr h.opens) handles
  rcases hsame x with he | ⟨n, n', hn, hn', hdir, hdir', hchild⟩
  · rw [he]
  · rw [hn, hn', Option.map_some, Option.map_some, Node.object_directory hdir, Node.object_directory hdir',
      hchild]

/-- How often an inode is open is no matter of the model, save for whether it is to be given up. -/
theorem model_setOpening {o : Option Opening} (ho : (∃ o', o = some o' ∧ o'.removed = true) ↔ W.Doomed x)
    (handles : List Handle) : (W.setOpening x o).model handles = W.model handles := by
  have hnodes (y : UInt32) : (W.setOpening x o).pool.nodes y = W.pool.nodes y := rfl
  refine model_eq (fun y => congrArg _ (hnodes y)) (fun y => ?_) handles
  by_cases hy : y = x
  · subst hy
    rw [← ho]
    simp [Doomed]
  · simp [Doomed, hy]

theorem model_opened (W : World) (x : UInt32) (handles : List Handle) (h : Handle) :
    (W.opened x).model (handles ++ [h]) = (W.model handles).opened h := by
  refine model_setOpening ?_ (handles ++ [h])
  rw [← moreOpen_removed]
  simp

theorem model_denied (hT : W.Tracks handles) : (W.model handles).Denied x ↔ 0 < W.denials x := by
  rw [hT.denials, List.countP_pos_iff, Model.Denied]
  simp

theorem not_model_denied (hT : W.Tracks handles) (h : W.denials x = 0) : ¬(W.model handles).Denied x := by
  rw [model_denied hT, h]
  exact Nat.lt_irrefl 0

/-- What has been created in a world has been created in the model. -/
theorem Added.model (habs : Path.toAbsolute path cwd = .ok absolute)
    (h : W.Added K T absolute size isDirectory t n b n' m W') :
    (W.model handles).Creates path cwd size isDirectory b (W'.model handles) := by
  have hc := h.created
  have hbt : b ≠ t := by
    rintro rfl
    exact h.grafted.fresh h.linked
  have hb : m.object = if isDirectory then .directory (Volume.dots b t) else .file (zeros size) := by
    cases hk : isDirectory with
    | true => rw [if_pos rfl, Node.object_directory (hc.kind.trans hk), (hc.directory hk).2]
    | false =>
      obtain ⟨hsize, hbyte⟩ := hc.file hk
      rw [if_neg (by decide), Node.object_file (hc.kind.trans hk), Node.contents_zeros hbyte, hsize]
  have hmodel : W'.model handles =
      ((W.model handles).put b (some (if isDirectory then .directory (Volume.dots b t)
        else .file (zeros size)))).put t
          (some (.directory (Function.update n.child (Path.leafPart absolute) (some b)))) := by
    rw [← hb, ← hc.child, ← Node.object_directory hc.parent]
    -- The parent and the new inode are the two objects that differ, and the new inode is not the parent.
    refine model_eq_of (M := ((W.model handles).put b _).put t _) (fun y => ?_) (doomed_congr h.opens)
    rw [Model.put_objects, Model.put_objects, hc.nodes]
    by_cases hyt : y = t
    · rw [hyt, Function.update_self, Function.update_self, Option.map_some]
    · rw [Function.update_of_ne hyt, Function.update_of_ne hyt]
      by_cases hyb : y = b
      · rw [hyb, Function.update_self, Function.update_self, Option.map_some]
      · rw [Function.update_of_ne hyb, Function.update_of_ne hyb]
        rfl
  rw [hmodel]
  exact .intro habs (by rw [model_names]; exact h.creatable.parent)
    (model_directory h.creatable.node h.parent) h.creatable.room.new (model_none hc.fresh)

/-- What has been removed in a world has been removed in the model. -/
theorem Erased.model (hR : W.pool.Rooted T) (hopened : (W.model handles).Opened x ↔ W.opens x ≠ none)
    (habs : Path.toAbsolute path cwd = .ok absolute) (h : W.Erased K T absolute t n x m n' W') :
    (W.model handles).Step (.remove path cwd) (.ok .done) (W'.model handles) := by
  have hu := h.unlinked
  have hxt := h.ne hR
  have ht : (W'.pool.nodes t).map Node.object =
      some (.directory (Function.update n.child (Path.leafPart absolute) none)) := by
    rw [hu.node, Option.map_some, Node.object_directory (hu.isDirectory.trans h.parent), hu.child]
  have hparent : (W.model handles).names.resolve rootInode (Path.components (Path.parentPart absolute)) = .ok t := by
    rw [model_names]
    exact h.erasable.parent
  have htable : (W.model handles).objects t = _ := model_directory h.erasable.node h.parent
  have hdoomed (y : UInt32) (hy : y ≠ x) : W'.Doomed y ↔ W.Doomed y := by
    rw [Doomed, Doomed, hu.opens y hy]
  -- An inode that nobody has open is gone at once, one that is open waits for its last handle.
  cases hx : W.opens x with
  | none =>
    obtain ⟨hopens, hnode, -⟩ := hu.gone hx
    have hmodel : W'.model handles = ((W.model handles).put t
        (some (.directory (Function.update n.child (Path.leafPart absolute) none)))).put x none := by
      refine model_eq_of (M := ((W.model handles).put t _).put x none) (fun y => ?_) fun y => ?_
      · rw [Model.put_objects, Model.put_objects]
        by_cases hyx : y = x
        · rw [hyx, Function.update_self, hnode]
          rfl
        · rw [Function.update_of_ne hyx]
          by_cases hyt : y = t
          · rw [hyt, Function.update_self, ht]
          · rw [Function.update_of_ne hyt, hu.others y hyt hyx]
            rfl
      · by_cases hyx : y = x
        · show W'.Doomed y ↔ W.Doomed y
          rw [hyx, Doomed, Doomed, hopens, hx]
        · exact hdoomed y hyx
    rw [hmodel]
    exact .removed habs hparent htable h.erasable.removable.child h.erasable.removable.named
      fun ho => hopened.1 ho hx
  | some o =>
    obtain ⟨hopens, hnode, -⟩ := hu.marked o hx
    have hmodel : W'.model handles = { (W.model handles).put t
        (some (.directory (Function.update n.child (Path.leafPart absolute) none))) with
          removed := fun y => y = x ∨ W.Doomed y } := by
      refine model_eq_of (M := { (W.model handles).put t _ with removed := fun y => y = x ∨ W.Doomed y })
        (fun y => ?_) fun y => ?_
      · rw [Model.put_objects]
        by_cases hyt : y = t
        · rw [hyt, Function.update_self, ht]
        · rw [Function.update_of_ne hyt]
          by_cases hyx : y = x
          · rw [hyx, hnode]
            exact (model_object h.erasable.inode).symm
          · rw [hu.others y hyt hyx]
            rfl
      · by_cases hyx : y = x
        · subst hyx
          exact iff_of_true ⟨_, hopens, rfl⟩ (.inl rfl)
        · rw [hdoomed y hyx]
          simp [hyx]
    rw [hmodel]
    exact .unlinked habs hparent htable h.erasable.removable.child h.erasable.removable.named
      (hopened.2 (by simp [hx]))

end World

/-! ## What calls come to -/

section Calls

variable {K : Regime} {W W' : World} {T : Hierarchy} {handles : List Handle} {x id : UInt32} {n : Node}
  {o : Opening} {path cwd : String}

/-- What is refused for want of room would have made the contents longer. -/
theorem Pool.Refused.beyond {target : Nat} {e : Error} (hf : ¬K.faulty) (hn : n.size ≤ maxFileSize)
    (h : Pool.Refused K W.pool target (totalBlocks target - totalBlocks n.size) e) : n.size < target := by
  by_contra hle
  have hmono : totalBlocks target ≤ totalBlocks n.size := totalBlocks_mono (Nat.le_of_not_lt hle)
  rcases h with ⟨-, hlarge⟩ | ⟨-, hspace⟩ | ⟨hfaulty, -⟩
  · omega
  · omega
  · exact hf hfaulty

/-- Writing in a world is writing in the model. -/
theorem Inode.Writes.models {offset : Nat} {data : ByteArray} {r : Except Stop Nat} (hf : ¬K.faulty)
    (hT : W.Tracks handles) (hP : W.pool.Sound K) (hn : W.pool.nodes id = some n)
    (ho : W.opens id = some o) (hfile : n.record.isDirectory = false)
    (h : Inode.Writes K W id n o offset data r W') :
    (W.model handles).Writes id offset data r (W'.model handles) := by
  have hdenials := World.denials_of_open ho
  rcases h with ⟨hpos, rfl, rfl⟩ | ⟨hzero, hempty, rfl, rfl⟩ | ⟨hzero, hfull, k, n', rfl, hb, hwrote⟩ |
    ⟨hzero, hfull, hbeyond, e, rfl, hs, -⟩
  · exact .denied ((World.model_denied hT).2 (hdenials ▸ hpos))
  · exact .nothing (World.not_model_denied hT (hdenials.trans hzero)) hempty
  · -- No fault occurs, so all bytes have been written.
    have hk : k = data.size := hwrote.count.resolve_right fun hfaulty => hf hfaulty.1
    have hobject : n'.object = .file (patched n.contents offset data) := by
      rw [Node.object_file (hwrote.isDirectory.trans hfile), Node.contents, patched, Node.size_contents,
        Node.byteOf_contents (hP.stored id n hn).tail, hwrote.byte, hwrote.size, hk]
    rw [hb.model, hobject, hk]
    exact .all (World.not_model_denied hT (hdenials.trans hzero)) hfull (World.model_file hn hfile)
  · rw [hs.model]
    exact .refused e (World.not_model_denied hT (hdenials.trans hzero)) (World.model_file hn hfile)
      (by rwa [Node.size_contents])

/-- Opening a file in a world is opening it in the model. -/
theorem Volume.OpensFile.models {mode : Volume.OpenMode} {r : Except Stop File} (hf : ¬K.faulty)
    (h : Call.Good K W T handles) (hc : Volume.OpensFile K W T path cwd mode r W') :
    (W.model handles).Step (.openFile path cwd mode) (r.map fun _ => .done)
      (W'.model (Call.kept handles (r.map fun f => (Answer.done, handles ++ [.file f])))) := by
  have hfind := World.model_find W handles path cwd
  rcases hc with ⟨x, W₁, T₁, W₂, rfl, hopens, htruncates, -, rfl⟩ | ⟨⟨e, rfl, hwhy⟩, hundone⟩
  · show (W.model handles).Step _ (.ok .done) ((W₂.opened x).model (handles ++ [.file { inode := ⟨x⟩ }]))
    rw [W₂.model_opened]
    cases hopens with
    | @found absolute _ habs hx =>
      have hfound : (W.model handles).find path cwd = .ok x := by
        rw [hfind, habs]
        exact hx
      cases htruncates with
      | kept hn keep =>
        refine .openedFile hfound fun hask => ?_
        rw [World.model_names]
        show W.pool.isDirectory x = true
        rw [Pool.isDirectory_of_node hn]
        by_contra hdir
        exact keep ⟨hask, by simpa using hdir⟩
      | emptied asked allowed hn hfile hb hfile' hsize _ =>
        rw [hb.model, Node.object_file hfile', Node.contents_empty hsize]
        exact .emptiedFile hfound asked (World.model_file hn hfile) (World.not_model_denied h.tracks allowed)
    | @made absolute t _ n n' m _ asked habs hmissing hadded =>
      have hmissing' : (W.model handles).find path cwd = .error .notFound := by
        rw [hfind, habs]
        exact hmissing
      have hsame : W₂.model handles = W₁.model handles := by
        cases htruncates with
        | kept _ _ => rfl
        | @emptied n₁ n₂ _ _ _ hn _ hb hfile' hsize _ =>
          -- A new file has nothing that could be emptied.
          obtain ⟨hsize₁, hbyte₁⟩ := hadded.created.file rfl
          have hm : m.object = .file (zeros 0) := by
            rw [Node.object_file hadded.created.kind, Node.contents_empty hsize₁]
          rw [hb.model, Node.object_file hfile', Node.contents_empty hsize, ← hm, ← World.model_object hadded.node]
          exact World.model_eq_of (M := (W₁.model handles).put x _)
            (fun y => by rw [Model.put_objects, Function.update_eq_self]; rfl) (fun _ => Iff.rfl) |>.symm
      rw [hsame]
      exact .madeFile hmissing' asked (hadded.model habs)
  · show (W.model handles).Step _ (.error (.failed e)) (W'.model handles)
    rw [hundone.model hf]
    rcases hwhy with hfaulty | ⟨hmissing, hnot⟩ | ⟨asked, hmissing, -⟩ | ⟨asked, rfl, x, n, hx, hn, hfile, hpos⟩
    · exact absurd hfaulty hf
    · exact .noFile (hfind.trans hmissing) hnot
    · exact .fileNotMade e (hfind.trans hmissing) asked
    · exact .fileDenied (hfind.trans hx) asked (World.model_file hn hfile) ((World.model_denied h.tracks).2 hpos)

/-- Closing in a world is closing in the model. -/
theorem Inode.Closed.models {i : Nat} {y : Handle} (h : Call.Good K W T handles)
    (hy : handles[i]? = some y) (ho : W.opens y.target.number = some o)
    (hc : Inode.Closed K (W.setOpening y.target.number (some (o.lifted y.denies))) y.target.number
      (o.lifted y.denies) n W') :
    (W.model handles).Step (.close i) (.ok .done) (W'.model (handles.eraseIdx i)) := by
  have hopeners := h.tracks.openers y.target.number
  rw [ho, Option.elim_some, countP_of_getElem? _ hy, if_pos (by simp)] at hopeners
  have hdoomed : W.Doomed y.target.number ↔ o.removed = true := by simp [World.Doomed, ho]
  by_cases hmore : 1 < o.openers
  · -- Others have the inode open, and it stays.
    have hothers : ∃ h ∈ handles.eraseIdx i, h.target.number = y.target.number := by
      have hpos : 0 < (handles.eraseIdx i).countP (·.target.number == y.target.number) := by omega
      simpa using List.countP_pos_iff.1 hpos
    rw [hc.more (by rwa [o.lifted_openers]), World.setOpening_idem,
      World.model_setOpening (by simp [hdoomed])]
    exact .closed hy (.inr hothers)
  have hlast : (o.lifted y.denies).openers ≤ 1 := by
    rw [o.lifted_openers]
    exact Nat.le_of_not_lt hmore
  by_cases hr : o.removed = true
  · -- The last handle of an inode that has been removed takes it along.
    have hnone : ∀ h ∈ handles.eraseIdx i, h.target.number ≠ y.target.number := by
      have hzero : (handles.eraseIdx i).countP (·.target.number == y.target.number) = 0 := by omega
      simpa using List.countP_eq_zero.1 hzero
    obtain ⟨hopens, hnodes, -, -⟩ := hc.gone hlast (by rwa [o.lifted_removed])
    have hmodel : W'.model (handles.eraseIdx i) =
        ⟨Function.update (W.model handles).objects y.target.number none,
          fun z => z ≠ y.target.number ∧ W.Doomed z, handles.eraseIdx i⟩ := by
      refine World.model_eq_of (M := ⟨_, _, handles.eraseIdx i⟩) (fun z => ?_) fun z => ?_
      · rw [hnodes]
        dsimp only
        by_cases hz : z = y.target.number
        · rw [hz, Function.update_self, Function.update_self]
          rfl
        · rw [Function.update_of_ne hz, Function.update_of_ne hz]
          rfl
      · by_cases hz : z = y.target.number <;> simp [World.Doomed, hopens, hz]
    rw [hmodel]
    exact .dropped hy (hdoomed.2 hr) hnone
  · -- The last handle of an inode that has a name closes it.
    rw [hc.last hlast (by simpa using hr), World.setOpening_idem,
      World.model_setOpening (by simp [hdoomed, hr])]
    exact .closed hy (.inl fun hd => hr (hdoomed.1 hd))

/-- Growing in a world is growing in the model. -/
theorem Inode.Grows.models {i target : Nat} {y : Handle} {r : Except Stop Unit} (hf : ¬K.faulty)
    (hP : W.pool.Sound K) (hy : handles[i]? = some y) (hn : W.pool.nodes y.target.number = some n)
    (hfile : n.record.isDirectory = false) (h : Inode.Grows K W y.target.number n target r W') :
    (W.model handles).Step (.grow i target) (r.map fun _ => .done) (W'.model handles) := by
  have hstored := hP.stored _ n hn
  -- Without faults nothing but the length or the room on the disk stops the growth.
  rcases h with ⟨n', rfl, hb, hgrown⟩ | ⟨e, rfl, hs, hwhy⟩
  · have hobject : n'.object = .file (extended n.contents target) := by
      rw [Node.object_file (hgrown.isDirectory.trans hfile), Node.contents, extended, Node.size_contents,
        Node.byteOf_contents hstored.tail, hgrown.byte, hgrown.size]
    rw [hb.model, hobject]
    exact .grew hy (World.model_file hn hfile)
  · rw [hs.model]
    refine .notGrown e hy (World.model_file hn hfile) ?_
    rw [Node.size_contents]
    exact Pool.Refused.beyond hf hstored.size_le hwhy

/-- Emptying in a world is emptying in the model. -/
theorem Inode.Clears.models {i : Nat} {y : Handle} {r : Except Stop Unit} (hf : ¬K.faulty)
    (hT : W.Tracks handles) (hy : handles[i]? = some y) (hn : W.pool.nodes y.target.number = some n)
    (ho : W.opens y.target.number = some o) (hfile : n.record.isDirectory = false)
    (h : Inode.Clears K W y.target.number n o r W') :
    (W.model handles).Step (.clear i) (r.map fun _ => .done) (W'.model handles) := by
  have hdenials := World.denials_of_open ho
  -- The two ways that end in a failed write need a faulty disk.
  rcases h with ⟨hpos, rfl, rfl⟩ | ⟨hzero, n', hb, hdir, hsize, -, ⟨rfl, -⟩ | ⟨hfaulty, -⟩⟩ | ⟨-, hfaulty, -⟩
  · exact .notCleared hy ((World.model_denied hT).2 (hdenials ▸ hpos))
  · rw [hb.model, Node.object_file (hdir.trans hfile), Node.contents_empty hsize]
    exact .cleared hy (World.model_file hn hfile) (World.not_model_denied hT (hdenials.trans hzero))
  · exact absurd hfaulty hf
  · exact absurd hfaulty hf

/-- Opening an inode in a world is opening it in the model. -/
theorem World.Arrives.models {f : UInt32 → Handle} {r : Except Error UInt32}
    {res : Except Stop (Answer × List Handle)} {q : Call}
    (hok : ∀ x, r = .ok x → (W.model handles).Step q (.ok .done) ((W.model handles).opened (f x)))
    (herr : ∀ e, r = .error e → (W.model handles).Step q (.error (.failed e)) (W.model handles))
    (h : W.Arrives (fun x => (.done, handles ++ [f x])) r res W') :
    (W.model handles).Step q (res.map Prod.fst) (W'.model (Call.kept handles res)) := by
  cases r with
  | ok x =>
    obtain ⟨rfl, rfl⟩ := h
    show (W.model handles).Step q (.ok .done) ((W.opened x).model (handles ++ [f x]))
    rw [W.model_opened]
    exact hok x rfl
  | error e =>
    obtain ⟨rfl, rfl⟩ := h
    exact herr e rfl

/-- A call on a handle is one of the model if it is where there is a handle. -/
theorem World.OnHandle.models {i : Nat} {q : Call} {res : Except Stop (Answer × List Handle)}
    {P : Handle → Node → Opening → Except Stop (Answer × List Handle) → World → Prop}
    (hq : q.works = some i) (hc : W.OnHandle handles i P res W')
    (hP : ∀ x n o, handles[i]? = some x → W.pool.nodes x.target.number = some n →
      W.opens x.target.number = some o → P x n o res W' →
      (W.model handles).Step q (res.map Prod.fst) (W'.model (Call.kept handles res))) :
    (W.model handles).Step q (res.map Prod.fst) (W'.model (Call.kept handles res)) := by
  rcases hc with ⟨hnone, rfl, rfl⟩ | ⟨x, n, o, hx, hn, ho, hc⟩
  · refine .absent hq fun x hx => ?_
    rw [World.model_handles, hnone] at hx
    cases hx
  · exact hP x n o hx hn ho hc

/-- A call on a file is one of the model if it is where there is a file. -/
theorem World.OnFile.models {i : Nat} {q : Call} {res : Except Stop (Answer × List Handle)}
    {P : File → Node → Opening → Except Stop (Answer × List Handle) → World → Prop}
    (hq : q.works = some i) (hfile : q.needsFile = true) (hc : W.OnFile handles i P res W')
    (hP : ∀ f n o, handles[i]? = some (.file f) → W.pool.nodes f.inode.number = some n →
      W.opens f.inode.number = some o → P f n o res W' →
      (W.model handles).Step q (res.map Prod.fst) (W'.model (Call.kept handles res))) :
    (W.model handles).Step q (res.map Prod.fst) (W'.model (Call.kept handles res)) := by
  refine World.OnHandle.models hq hc ?_
  rintro x n o hx hn ho (⟨f, rfl, hc⟩ | ⟨hnot, rfl, rfl⟩)
  · exact hP f n o hx hn ho hc
  · refine .absent hq fun y hy => ⟨hfile, ?_⟩
    rw [World.model_handles, hx] at hy
    cases hy
    exact hnot

theorem World.model_isDirectory (hn : W.pool.nodes x = some n) :
    (W.model handles).names.isDirectory x = n.record.isDirectory := by
  rw [World.model_names]
  exact Pool.isDirectory_of_node hn

/-- What a call comes to is a step of the model. -/
theorem Call.Comes.models {q : Call} {res : Except Stop (Answer × List Handle)} (hf : ¬K.faulty)
    (h : Call.Good K W T handles) (hP : W.pool.Sound K) (hproper : q.Proper W handles)
    (hc : q.Comes K W T handles res W') :
    (W.model handles).Step q (res.map Prod.fst) (W'.model (Call.kept handles res)) := by
  have hfind := World.model_find W handles
  -- What a call comes to names the world after it; each case picks the step of the model that changes the
  -- same.
  cases q with
  | create path cwd size isDirectory =>
    obtain ⟨r, hr, rfl⟩ := hc
    rw [Call.kept_map]
    rcases hr with ⟨rfl, absolute, t, n, b, n', m, habs, ha⟩ | ⟨-, ⟨e, rfl⟩, hu⟩
    · exact .created (ha.model habs)
    · rw [hu.model hf]
      exact .notCreated e
  | remove path cwd =>
    obtain ⟨r, hr, rfl⟩ := hc
    rw [Call.kept_map]
    rcases hr with ⟨rfl, absolute, t, n, x, m, n', habs, he⟩ | ⟨-, ⟨e, rfl⟩, hu⟩
    · exact he.model h.ordered.rooted h.open_iff habs
    · rw [hu.model hf]
      exact .notRemoved e
  | changeDirectory path cwd =>
    obtain ⟨rfl, rfl⟩ := hc
    rw [Call.kept_map, Call.answer_map, ← World.model_names W' handles]
    exact .changedDirectory path cwd
  | openInode path cwd =>
    exact World.Arrives.models (f := fun x => .inode ⟨x⟩) (fun x hx => .openedInode ((hfind path cwd).trans hx))
      (fun e he => .noInode ((hfind path cwd).trans he)) hc
  | openDirectory path cwd =>
    refine World.Arrives.models (f := fun x => .directory (directoryAt x)) (fun x hx => ?_) (fun e he => ?_) hc
    · -- Opening a directory reads the absolute path, which the step therefore has to name.
      cases habs : Path.toAbsolute path cwd with
      | error e =>
        rw [habs] at hx
        cases hx
      | ok absolute =>
        rw [habs] at hx
        exact .openedDirectory habs (by rw [World.model_names]; exact hx)
    · exact .noDirectory (by rw [World.model_names]; exact he)
  | openFile path cwd mode =>
    obtain ⟨r, hr, rfl⟩ := hc
    rw [Call.answer_map]
    exact hr.models hf h
  | close i =>
    rw [Call.Comes] at hc
    refine World.OnHandle.models rfl hc ?_
    rintro x n o hx hn ho ⟨rfl, hclosed⟩
    exact hclosed.models h hx ho
  | reopen i =>
    rw [Call.Comes] at hc
    refine World.OnHandle.models rfl hc ?_
    rintro x n o hx hn ho ⟨rfl, rfl⟩
    show (W.model handles).Step _ _ ((W.opened x.target.number).model (handles ++ [x.again]))
    rw [W.model_opened]
    exact .reopened hx
  | readAt i offset count =>
    rw [Call.Comes] at hc
    refine World.OnHandle.models rfl hc ?_
    rintro x n o hx hn ho ⟨rfl, rfl⟩
    cases hdir : n.record.isDirectory with
    -- The bytes of a table are no part of the model.
    | true => exact .readTableAt _ hx ((World.model_isDirectory hn).trans hdir)
    | false =>
      rw [← n.contents_extract]
      exact .readAt hx (World.model_file hn hdir)
  | writeAt i offset data =>
    rw [Call.Comes] at hc
    refine World.OnHandle.models rfl hc ?_
    rintro x n o hx hn ho ⟨r, hr, rfl⟩
    rw [Call.kept_map, Call.answer_map]
    exact .wroteAt hx (hr.models hf h.tracks hP hn ho (hproper i x n rfl hx hn))
  | grow i target =>
    rw [Call.Comes] at hc
    refine World.OnHandle.models rfl hc ?_
    rintro x n o hx hn ho ⟨r, hr, rfl⟩
    rw [Call.kept_map, Call.answer_map]
    exact hr.models hf hP hx hn (hproper i x n rfl hx hn)
  | clear i =>
    rw [Call.Comes] at hc
    refine World.OnHandle.models rfl hc ?_
    rintro x n o hx hn ho ⟨r, hr, rfl⟩
    rw [Call.kept_map, Call.answer_map]
    exact hr.models hf h.tracks hx hn ho (hproper i x n rfl hx hn)
  | read i count =>
    refine World.OnFile.models rfl rfl hc ?_
    rintro f n o hx hn ho ⟨rfl, rfl⟩
    cases hdir : n.record.isDirectory with
    | true => exact .readTable _ hx ((World.model_isDirectory hn).trans hdir)
    | false =>
      rw [← n.contents_extract]
      exact .read hx (World.model_file hn hdir)
  | write i data =>
    refine World.OnFile.models rfl rfl hc ?_
    rintro f n o hx hn ho ⟨r, hr, rfl⟩
    have hwrites := hr.models hf h.tracks hP hn ho (hproper i _ n rfl hx hn)
    cases r with
    | error e => exact .notWritten hx hwrites
    | ok k => exact .wrote hx hwrites
  | seek i position =>
    refine World.OnFile.models rfl rfl hc ?_
    rintro f n o hx hn ho ⟨rfl, rfl⟩
    exact .sought hx
  | denyWrite i =>
    refine World.OnFile.models rfl rfl hc ?_
    rintro f n o hx hn ho ⟨rfl, rfl⟩
    rw [World.model_setOpening (by simp [World.Doomed, ho])]
    exact .deniedWriting hx
  | allowWrite i =>
    refine World.OnFile.models rfl rfl hc ?_
    rintro f n o hx hn ho ⟨rfl, rfl⟩
    rw [World.model_setOpening (by simp [World.Doomed, ho])]
    exact .allowedWriting hx

end Calls

/-! ## Runs -/

/-- The contents of the file that a device has as inode `x`. -/
def Device.file (d : Device) (x : UInt32) : Option ByteArray :=
  (d.node x).bind fun n => if n.record.isDirectory then none else some n.contents

namespace Client

variable {K : Regime} {W : World} {T : Hierarchy} {c c' : Client} {disk : Disk}
  {l : List (Call × Except Stop Answer)}

/-- Every run of a client is a run of the model, with the same answers. -/
theorem Runs.models (hr : Runs c l c') (hf : ¬K.faulty) (hs : c.Stands K W T) :
    ∃ W' T', c'.Stands K W' T' ∧ (W.model c.handles).Runs l (W'.model c'.handles) := by
  induction hr generalizing W T with
  | nil c => exact ⟨W, T, hs, .nil _⟩
  | cons q allowed rest ih =>
    obtain ⟨res, W₁, T₁, hcomes, hres, hhandles, hs₁⟩ := hs.step allowed
    obtain ⟨W', T', hs', hruns⟩ := ih hs₁
    have hstep := hcomes.models hf hs.good hs.mounts.disk.sound (hs.proper allowed)
    rw [← hres, ← hhandles] at hstep
    exact ⟨W', T', hs', .cons hstep hruns⟩

/-- A world in which nothing is but the root, with no entries but its own, is the blank model. -/
theorem model_rootOnly (hf : ¬K.faulty) (hO : W.Ordered K Hierarchy.rootOnly)
    (hopens : W.opens = fun _ => none) : W.model [] = Model.blank := by
  have hdoomed (x : UInt32) : ¬W.Doomed x := by simp [World.Doomed, hopens]
  refine World.model_eq_of (M := Model.blank) (fun x => ?_) fun x => iff_of_false (hdoomed x) id
  rw [Model.blank_objects]
  by_cases hx : x = rootInode
  · subst hx
    obtain ⟨n, hn, hdir⟩ := Pool.isDirectory_node hO.rooted.rootDirectory
    obtain ⟨hdot, hdotdot⟩ := hO.dotted hf rootInode rfl hO.rooted.rootDirectory
    have hchild : n.child = Volume.dots rootInode rootInode := by
      rw [← Pool.child_of_node hn hdir]
      funext name
      by_cases h₂ : name = ".."
      · rw [h₂, hdotdot]
        rfl
      · by_cases h₁ : name = "."
        · rw [h₁, hdot]
          rfl
        · rw [Volume.dots, Function.update_of_ne h₂, Function.update_of_ne h₁]
          cases hc : W.pool.child rootInode name with
          | none => rfl
          | some y =>
            -- Any other entry would stand for an inode that is linked below the root.
            rcases hO.rooted.down rootInode name y rfl hc with (⟨he, -⟩ | ⟨he, -⟩) | ⟨hy, h0, -⟩
            · exact absurd he h₁
            · exact absurd he h₂
            · exact absurd hy h0
    rw [hn, Option.map_some, Node.object_directory hdir, hchild, Function.update_self]
  · have hnone : W.pool.nodes x = none := by
      by_contra hsome
      exact (hO.known hf x hsome).elim hx (hdoomed x)
    rw [hnone, Function.update_of_ne hx]
    rfl

/-- Every run of a client on a disk that has been formatted for it is one of the model, in which files are
byte arrays; the device then has each array of the model. In the model no call changes an array that it
does not write to, and none goes while it has a handle. -/
theorem refines_of_starts (hs : Starts False disk c) (hr : Runs c l c') :
    (∃ M, Model.blank.Runs l M ∧ M.handles = c'.handles ∧
        ∀ x data, M.objects x = some (.file data) → c'.device.file x = some data) ∧
      ∀ (M M' : Model) q res x data, M.Step q res M' → M.objects x = some (.file data) → ¬M.Aims q x →
        M'.objects x = some (.file data) ∨ (M'.objects x = none ∧ ¬M'.Opened x) := by
  refine ⟨?_, fun M M' q res x data hstep hx haims => hstep.keeps hx haims⟩
  obtain ⟨W, hW, hopens⟩ := hs.stands
  obtain ⟨W', T', hW', hruns⟩ := hr.models id hW
  rw [hs.handles, model_rootOnly id hW.good.ordered hopens] at hruns
  refine ⟨_, hruns, rfl, fun x data hx => ?_⟩
  -- The model holds the contents of the file, and its node is the one on the device.
  obtain ⟨n, hn, hobject⟩ := Option.map_eq_some_iff.1 hx
  cases hdir : n.record.isDirectory with
  | true =>
    rw [Node.object_directory hdir] at hobject
    cases hobject
  | false =>
    rw [Node.object_file hdir] at hobject
    cases hobject
    have hnode : c'.device.node x = some n := hW'.node hn
    rw [Device.file, hnode, Option.bind_some, hdir, if_neg (by decide)]

/-- A run in which a file is made, written, read and removed while it is open. -/
theorem refines_of_removal : ∃ c c' : Client, Starts False { device := .inMemory 8 } c ∧ Runs c removal c' ∧
    (∃ M, Model.blank.Runs removal M ∧ M.handles = c'.handles ∧
      ∀ x data, M.objects x = some (.file data) → c'.device.file x = some data) ∧
    ∀ (M M' : Model) q res x data, M.Step q res M' → M.objects x = some (.file data) → ¬M.Aims q x →
      M'.objects x = some (.file data) ∨ (M'.objects x = none ∧ ¬M'.Opened x) := by
  obtain ⟨c, c', hs, hr⟩ := exists_removal
  exact ⟨c, c', hs, hr, refines_of_starts hs hr⟩

end Client

end InodeVolume

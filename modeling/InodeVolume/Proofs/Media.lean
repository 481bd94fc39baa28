import InodeVolume.Proofs.Contents

/-!
# The two media

A device in memory and a device on a host file are used by the same accesses. Memory is a row of blocks; a host
file is one row of bytes (`HostFile`), in which an access first looks for the place of its block and then reads
or writes there. `OnFile.serveAll` says that a device on a host file does just that, and `media_agree` that the
two media cannot be told apart, except by an access that names no block of the device and has not the size of a
block either: memory reports the size and a host file the number.
-/

namespace InodeVolume

namespace Device

/-! ## Accesses -/

/-- An access to a device. -/
inductive Access where
  | read (id size : Nat)
  | write (id : Nat) (data : ByteArray)

namespace Access

/-- The block that an access is for. -/
def id : Access → Nat
  | read id _ => id
  | write id _ => id

/-- How many bytes an access is for. -/
def size : Access → Nat
  | read _ size => size
  | write _ data => data.size

/-- Both the size of the access and the number of its block are wrong on a device of `n` blocks. -/
def WrongTwice (n : Nat) (q : Access) : Prop := q.size ≠ blockSize ∧ n ≤ q.id

instance (n : Nat) (q : Access) : Decidable (q.WrongTwice n) := inferInstanceAs (Decidable (_ ∧ _))

/-- Carries out an access; a read answers the bytes of the block. -/
def act : Access → EStateM DeviceError Device (Option ByteArray)
  | read id size => do pure (some (← Device.read id size).bytes)
  | write id data => do
    Device.write id data
    pure none

end Access

/-- What an access is answered. -/
abbrev Response := Except DeviceError (Option ByteArray)

/-- Carries out one access. -/
def serve (d : Device) (q : Access) : Response × Device :=
  match q.act d with
  | .ok a d => (.ok a, d)
  | .error e d => (.error e, d)

/-- Carries out accesses, one after the other. -/
def serveAll (d : Device) : List Access → List Response × Device
  | [] => ([], d)
  | q :: rest =>
    let (a, d) := d.serve q
    let (as, d) := d.serveAll rest
    (a :: as, d)

/-- The answer to the first access comes first. -/
theorem serveAll_cons {d d' d'' : Device} {q : Access} {rest : List Access} {a : Response} {as : List Response}
    (h : d.serve q = (a, d')) (hrest : d'.serveAll rest = (as, d'')) : d.serveAll (q :: rest) = (a :: as, d'') := by
  rw [serveAll, h]
  dsimp only
  rw [hrest]

/-- The bytes of the medium, one block behind the other. -/
def image (d : Device) (p : Nat) : UInt8 := (d.block (p / blockSize)).byte (p % blockSize)

/-! ## What one access does -/

section Serve

variable {d : Device} {q : Access}

/-- An access that the device refuses changes nothing. -/
theorem serve_refused {e : DeviceError} (h : d.refusal q.id q.size = some e) :
    d.serve q = (.error e, d) := by
  cases q with
  | read id size =>
    have hr : d.refusal id size = some e := h
    simp [serve, Access.act, bind, EStateM.bind, Device.read, hr]
  | write id data =>
    have hr : d.refusal id data.size = some e := h
    simp [serve, Access.act, bind, EStateM.bind, Device.write, hr]

/-- A read that the device does not refuse, of a block inside the medium. -/
theorem serve_read {id size : Nat} (hr : d.refusal id size = none) (hh : d.holds id = true) :
    d.serve (.read id size) = (.ok (some (d.block id).bytes), { d with reads := d.reads + 1 }) := by
  simp [serve, Access.act, bind, EStateM.bind, Device.read, hr, hh, pure, EStateM.pure]

/-- A write that the device does not refuse. -/
theorem serve_write {id : Nat} {data : ByteArray} (hr : d.refusal id data.size = none)
    (hs : data.size = blockSize) :
    d.serve (.write id data) = (.ok none,
      { d with
        blocks := d.blocks.setIfInBounds id ⟨data, hs⟩
        medium := Medium.stretch id d.medium
        writes := d.writes + 1 }) := by
  have hw : Device.write id data d = .ok ()
      { d with
        blocks := d.blocks.setIfInBounds id ⟨data, hs⟩
        medium := Medium.stretch id d.medium
        writes := d.writes + 1 } := by
    unfold Device.write
    rw [hr]
    exact dif_pos hs
  simp only [serve, Access.act, bind, EStateM.bind, hw, pure, EStateM.pure]

theorem image_congr {d' : Device} (h : d'.blocks = d.blocks) : d'.image = d.image := by
  funext p
  simp only [image, block, h]

/-- Every access leaves the bytes outside its block as they are. -/
theorem image_serve {p : Nat} (hp : p / blockSize ≠ q.id) : (d.serve q).2.image p = d.image p := by
  -- What is refused changes nothing, and a read neither. A write changes its own block, and the byte is not
  -- in it.
  cases hr : d.refusal q.id q.size with
  | some e => rw [serve_refused hr]
  | none =>
    have hsize : q.size = blockSize := ((refusal_eq_none_iff d _ _).1 hr).1
    cases q with
    | read id size =>
      simp only [Access.id, Access.size] at hr
      cases hh : d.holds id with
      | true => rw [serve_read hr hh]; rfl
      | false => simp [serve, Access.act, bind, EStateM.bind, Device.read, hr, hh]
    | write id data =>
      simp only [Access.id, Access.size] at hr hsize hp
      have hne : id ≠ p / blockSize := fun h => hp h.symm
      rw [serve_write hr hsize]
      simp only [image, block, Array.getElem?_setIfInBounds, hne, ↓reduceIte]

end Serve

/-! ## Memory and a host file side by side -/

/-- A device in memory and one on a host file of `length` bytes that hold the same. -/
structure Paired (n length : Nat) (m f : Device) : Prop where
  memory : m.medium = .memory
  file : f.medium = .hostFile length
  count : m.blockCount = n
  blocks : f.blocks = m.blocks
  long : n * blockSize ≤ length

/-- What a host file answers where memory answers `a`. -/
def onFile (n : Nat) (q : Access) (a : Response) : Response :=
  if q.WrongTwice n then .error .outOfRange else a

/-- What memory answers where a host file answers `a`. -/
def inMemoryOf (n : Nat) (q : Access) (a : Response) : Response :=
  if q.WrongTwice n then .error .badBuffer else a

section Paired

variable {n length : Nat} {m f : Device} {q : Access}

theorem Paired.block (h : Paired n length m f) (id : Nat) : f.block id = m.block id := by
  simp only [Device.block, h.blocks]

theorem Paired.count_file (h : Paired n length m f) : f.blockCount = n := by
  rw [← h.count, blockCount, blockCount, h.blocks]

/-- A block of the device lies inside the file. -/
theorem Paired.holds (h : Paired n length m f) {id : Nat} (hid : id < n) : f.holds id = true := by
  have hend : (id + 1) * blockSize ≤ n * blockSize := Nat.mul_le_mul_right _ hid
  simp only [Device.holds, h.file, decide_eq_true_eq]
  exact Nat.le_trans hend h.long

/-- Why memory refuses an access. -/
theorem Paired.refusal_memory (h : Paired n length m f) (id size : Nat) : m.refusal id size =
    if size ≠ blockSize then some .badBuffer else if n ≤ id then some .outOfRange else none := by
  simp only [refusal, h.memory, h.count]

/-- Why a host file refuses an access: the same is looked at in the other order. -/
theorem Paired.refusal_file (h : Paired n length m f) (id size : Nat) : f.refusal id size =
    if n ≤ id then some .outOfRange else if size ≠ blockSize then some .badBuffer else none := by
  simp only [refusal, h.file, h.count_file]

/-- An access is answered alike, unless it is wrong twice, and leaves the two devices alike. -/
theorem Paired.serve (h : Paired n length m f) (q : Access) :
    Paired n length (m.serve q).2 (f.serve q).2 ∧ (f.serve q).1 = onFile n q (m.serve q).1 ∧
      (m.serve q).1 = inMemoryOf n q (f.serve q).1 := by
  have hm := h.refusal_memory q.id q.size
  have hf := h.refusal_file q.id q.size
  -- The two kinds of disk check the same things in another order, so only what is wrong in both ways is
  -- told differently.
  by_cases hsize : q.size = blockSize
  · have hright : ¬q.WrongTwice n := fun hw => hw.1 hsize
    rw [onFile, inMemoryOf, if_neg hright, if_neg hright]
    by_cases hid : n ≤ q.id
    · rw [if_neg (not_not.2 hsize), if_pos hid] at hm
      rw [if_pos hid] at hf
      rw [serve_refused hm, serve_refused hf]
      exact ⟨h, rfl, rfl⟩
    · rw [if_neg (not_not.2 hsize), if_neg hid] at hm
      rw [if_neg hid, if_neg (not_not.2 hsize)] at hf
      have hlt : q.id < n := Nat.lt_of_not_le hid
      cases q with
      | read id size =>
        simp only [Access.id, Access.size] at hm hf hlt
        rw [serve_read hm (by simp only [Device.holds, h.memory]), serve_read hf (h.holds hlt), h.block]
        exact ⟨⟨h.memory, h.file, h.count, h.blocks, h.long⟩, rfl, rfl⟩
      | write id data =>
        simp only [Access.id, Access.size] at hm hf hlt hsize
        have hend : (id + 1) * blockSize ≤ length :=
          Nat.le_trans (Nat.mul_le_mul_right _ (Nat.succ_le_of_lt hlt)) h.long
        rw [serve_write hm hsize, serve_write hf hsize]
        refine ⟨⟨?_, ?_, ?_, ?_, h.long⟩, rfl, rfl⟩
        · simp only [h.memory, Medium.stretch]
        · -- The block lies inside the file, so writing it does not make the file longer.
          simp only [h.file, Medium.stretch, Nat.max_eq_left hend]
        · simp only [blockCount, Array.size_setIfInBounds]
          exact h.count
        · simp only [h.blocks]
  · rw [if_pos hsize] at hm
    by_cases hid : n ≤ q.id
    · have hwrong : q.WrongTwice n := ⟨hsize, hid⟩
      rw [if_pos hid] at hf
      rw [serve_refused hm, serve_refused hf, onFile, inMemoryOf, if_pos hwrong, if_pos hwrong]
      exact ⟨h, rfl, rfl⟩
    · have hright : ¬q.WrongTwice n := fun hw => hid hw.2
      rw [if_neg hid, if_pos hsize] at hf
      rw [serve_refused hm, serve_refused hf, onFile, inMemoryOf, if_neg hright, if_neg hright]
      exact ⟨h, rfl, rfl⟩

/-- Any number of accesses leaves the two devices alike. -/
theorem Paired.serveAll (h : Paired n length m f) (calls : List Access) :
    Paired n length (m.serveAll calls).2 (f.serveAll calls).2 ∧
      (f.serveAll calls).1 = List.zipWith (onFile n) calls (m.serveAll calls).1 ∧
      (m.serveAll calls).1 = List.zipWith (inMemoryOf n) calls (f.serveAll calls).1 := by
  -- By induction on the calls, as each of them leaves the two disks paired.
  induction calls generalizing m f with
  | nil => exact ⟨h, rfl, rfl⟩
  | cons q rest ih =>
    obtain ⟨hnext, hfile, hmemory⟩ := h.serve q
    obtain ⟨hlast, hfiles, hmemories⟩ := ih hnext
    refine ⟨hlast, ?_, ?_⟩
    · simp only [Device.serveAll, List.zipWith_cons_cons]
      rw [← hfile, ← hfiles]
    · simp only [Device.serveAll, List.zipWith_cons_cons]
      rw [← hmemory, ← hmemories]

/-- Zeroed devices of the same number of blocks are alike. -/
theorem paired_zeroed (n : Nat) {r : Nat} (hr : r < blockSize) :
    Paired n (n * blockSize + r) (inMemory n) (onHostFile (n * blockSize + r)) where
  memory := rfl
  file := rfl
  count := by simp [inMemory, blockCount]
  blocks := by
    have hn : (n * blockSize + r) / blockSize = n := by
      simp only [blockSize] at hr ⊢
      omega
    simp only [onHostFile, inMemory, hn]
  long := Nat.le_add_right _ _

end Paired

/-! ## A host file as a row of bytes -/

/-- A file of the host: its length and its bytes, which are zero past the end. -/
structure HostFile where
  length : Nat
  byte : Nat → UInt8

namespace HostFile

/-- A file of zeros. -/
def zeroed (length : Nat) : HostFile := ⟨length, fun _ => 0⟩

/-- Where in the file of a device of `n` blocks an access takes place, or why it is refused. -/
def place (n id size : Nat) : Except DeviceError Nat :=
  if n ≤ id then .error .outOfRange
  else if size ≠ blockSize then .error .badBuffer else .ok (id * blockSize)

/-- The bytes from `offset` on, if the file has so many. -/
def readExact (f : HostFile) (offset size : Nat) : Except DeviceError ByteArray :=
  if offset + size ≤ f.length then .ok (bytesFrom f.byte offset size) else .error .io

/-- Writes all of `data` over the bytes from `offset` on. -/
def writeAll (f : HostFile) (offset : Nat) (data : ByteArray) : HostFile :=
  ⟨max f.length (offset + data.size), overwrite f.byte offset data data.size⟩

/-- Carries out one access to the device of `n` blocks that the file stands for. -/
def serve (n : Nat) (f : HostFile) (q : Access) : Response × HostFile :=
  match place n q.id q.size with
  | .error e => (.error e, f)
  | .ok offset =>
    match q with
    | .read _ size => ((f.readExact offset size).map some, f)
    | .write _ data => (.ok none, f.writeAll offset data)

/-- Carries out accesses, one after the other. -/
def serveAll (n : Nat) (f : HostFile) : List Access → List Response × HostFile
  | [] => ([], f)
  | q :: rest =>
    let (a, f) := f.serve n q
    let (as, f) := f.serveAll n rest
    (a :: as, f)

end HostFile

/-- The device stands for the file. -/
structure OnFile (n : Nat) (d : Device) (f : HostFile) : Prop where
  medium : d.medium = .hostFile f.length
  count : d.blockCount = n
  byte : d.image = f.byte

section OnFile

variable {n : Nat} {d : Device} {f : HostFile}

theorem image_of_lt {id i : Nat} (hi : i < blockSize) :
    d.image (id * blockSize + i) = (d.block id).byte i := by
  simp only [blockSize] at hi
  simp only [image, blockSize]
  rw [show (id * 512 + i) / 512 = id by omega, show (id * 512 + i) % 512 = i by omega]

/-- A block is the stretch of the file at its place. -/
theorem OnFile.block_bytes (h : OnFile n d f) (id : Nat) :
    (d.block id).bytes = bytesFrom f.byte (id * blockSize) blockSize := by
  have hs := (d.block id).size_bytes
  refine ByteArray.ext_getElem (by simp [hs]) fun i hx hy => ?_
  have hi : i < blockSize := by omega
  rw [getElem_bytesFrom, ← h.byte, image_of_lt hi, Block.byte, dif_pos hx]

theorem OnFile.refusal (h : OnFile n d f) (id size : Nat) :
    (∃ e, d.refusal id size = some e ∧ HostFile.place n id size = .error e) ∨
      (d.refusal id size = none ∧ id < n ∧ size = blockSize ∧
        HostFile.place n id size = .ok (id * blockSize)) := by
  simp only [Device.refusal, h.medium, h.count, HostFile.place]
  by_cases hid : n ≤ id
  · exact .inl ⟨.outOfRange, by rw [if_pos hid], by rw [if_pos hid]⟩
  · by_cases hsize : size = blockSize
    · exact .inr ⟨by rw [if_neg hid, if_neg (not_not.2 hsize)], Nat.lt_of_not_le hid, hsize,
        by rw [if_neg hid, if_neg (not_not.2 hsize)]⟩
    · exact .inl ⟨.badBuffer, by rw [if_neg hid, if_pos hsize], by rw [if_neg hid, if_pos hsize]⟩

/-- An access does to the device what it does to the file at the place of its block. -/
theorem OnFile.serve (h : OnFile n d f) (q : Access) :
    OnFile n (d.serve q).2 (f.serve n q).2 ∧ (f.serve n q).1 = (d.serve q).1 := by
  -- What is refused is refused before the file is touched. All else goes to the bytes of the block in the
  -- file.
  rcases h.refusal q.id q.size with ⟨e, hr, hp⟩ | ⟨hr, hid, hsize, hp⟩
  · rw [serve_refused hr, HostFile.serve, hp]
    exact ⟨h, rfl⟩
  · cases q with
    | read id size =>
      simp only [Access.id, Access.size] at hr hid hsize hp
      subst hsize
      have hends : (id + 1) * blockSize = id * blockSize + blockSize := Nat.succ_mul id blockSize
      simp only [HostFile.serve, Access.id, Access.size, hp, HostFile.readExact]
      by_cases hend : id * blockSize + blockSize ≤ f.length
      · have hh : d.holds id = true := by
          simp only [holds, h.medium, decide_eq_true_eq, hends]
          exact hend
        rw [serve_read hr hh, if_pos hend, h.block_bytes]
        exact ⟨⟨h.medium, h.count, h.byte⟩, rfl⟩
      · have hh : d.holds id = false := by
          simp only [holds, h.medium, decide_eq_false_iff_not, hends]
          exact hend
        rw [if_neg hend]
        simp only [Device.serve, Access.act, bind, EStateM.bind, Device.read, hr, hh]
        exact ⟨h, rfl⟩
    | write id data =>
      simp only [Access.id, Access.size] at hr hid hsize hp
      have hends : (id + 1) * blockSize = id * blockSize + blockSize := Nat.succ_mul id blockSize
      rw [serve_write hr hsize]
      simp only [HostFile.serve, Access.id, Access.size, hp, HostFile.writeAll]
      refine ⟨⟨?_, ?_, ?_⟩, trivial⟩
      · simp only [h.medium, Medium.stretch, hends, hsize]
      · simpa only [blockCount, Array.size_setIfInBounds] using h.count
      · funext p
        have hlt : id < d.blocks.size := by rw [← h.count] at hid; exact hid
        have hdiv := Nat.div_add_mod p blockSize
        have hmod := Nat.mod_lt p (show 0 < blockSize by decide)
        simp only [image, block, Array.getElem?_setIfInBounds, overwrite]
        by_cases hcell : id = p / blockSize
        · -- The byte lies in the block that is written.
          subst hcell
          have hin : p / blockSize * blockSize ≤ p ∧ p < p / blockSize * blockSize + data.size := by
            rw [hsize, Nat.mul_comm]
            omega
          have hat : p - p / blockSize * blockSize = p % blockSize := by
            rw [Nat.mul_comm]
            omega
          rw [if_pos rfl, if_pos hlt, if_pos hin, hat, Option.getD_some, Block.byte, byteOf]
        · have hout : ¬(id * blockSize ≤ p ∧ p < id * blockSize + data.size) := by
            rintro ⟨hle, hgt⟩
            rw [hsize, ← hends] at hgt
            exact hcell ((Nat.div_eq_of_lt_le hle hgt).symm)
          rw [if_neg hcell, if_neg hout, ← h.byte, image, block]

theorem OnFile.serveAll (h : OnFile n d f) (calls : List Access) :
    OnFile n (d.serveAll calls).2 (f.serveAll n calls).2 ∧
      (f.serveAll n calls).1 = (d.serveAll calls).1 := by
  induction calls generalizing d f with
  | nil => exact ⟨h, rfl⟩
  | cons q rest ih =>
    obtain ⟨hnext, hanswer⟩ := h.serve q
    obtain ⟨hlast, hanswers⟩ := ih hnext
    refine ⟨hlast, ?_⟩
    simp only [Device.serveAll, HostFile.serveAll]
    rw [hanswer, hanswers]

/-- A device on a zeroed file has as many blocks as the file has whole ones. -/
theorem onFile_zeroed (length : Nat) :
    OnFile (length / blockSize) (onHostFile length) (.zeroed length) where
  medium := rfl
  count := by simp [onHostFile, blockCount]
  byte := by
    funext p
    simp only [image, block, onHostFile, HostFile.zeroed]
    by_cases hp : p / blockSize < length / blockSize
    · rw [Array.getElem?_replicate, if_pos hp, Option.getD_some, Block.byte_zero]
    · rw [Array.getElem?_replicate, if_neg hp, Option.getD_none, Block.byte_zero]

end OnFile

/-! ## Either medium will do -/

/-- A zeroed device in memory and one on a zeroed file that has room for as many blocks, and less than one
more, answer every access alike, whatever accesses came before it. Only where both the number of the block and
the number of bytes are wrong, memory reports the bytes and the host file the block. At every moment the two
have the same number of blocks and the same bytes, which are those of the file: an access looks for the place of
its block in it and reads or writes there. No access changes a byte outside its block, or the length of the
file. -/
theorem media_agree {n r : Nat} (hr : r < blockSize) (calls : List Access) :
    let memory := (inMemory n).serveAll calls
    let file := (onHostFile (n * blockSize + r)).serveAll calls
    let bytes := (HostFile.zeroed (n * blockSize + r)).serveAll n calls
    file.1 = List.zipWith (onFile n) calls memory.1 ∧
      memory.1 = List.zipWith (inMemoryOf n) calls file.1 ∧
      memory.2.blockCount = n ∧ file.2.blockCount = n ∧
      file.1 = bytes.1 ∧ file.2.image = memory.2.image ∧ file.2.image = bytes.2.byte ∧
      bytes.2.length = n * blockSize + r ∧
      ∀ (q : Access) (p : Nat), p / blockSize ≠ q.id →
        (memory.2.serve q).2.image p = memory.2.image p ∧
          (file.2.serve q).2.image p = file.2.image p ∧
          (bytes.2.serve n q).2.byte p = bytes.2.byte p := by
  intro memory file bytes
  have hn : (n * blockSize + r) / blockSize = n := by
    simp only [blockSize] at hr ⊢
    omega
  -- Memory goes side by side with the host file, and the host file with its bytes, each by induction on the
  -- calls.
  obtain ⟨hpair, hfile, hmemory⟩ := (paired_zeroed n hr).serveAll calls
  obtain ⟨hon, hbytes⟩ := (hn ▸ onFile_zeroed (n * blockSize + r)).serveAll calls
  refine ⟨hfile, hmemory, hpair.count, hpair.count_file, hbytes.symm, image_congr hpair.blocks, hon.byte,
    ?_, fun q p hp => ⟨image_serve hp, image_serve hp, ?_⟩⟩
  · have hlength := hon.medium
    rw [hpair.file] at hlength
    exact (Medium.hostFile.inj hlength).symm
  · have hstep := (hon.serve q).1.byte
    rw [← hstep, ← hon.byte]
    exact image_serve hp

/-- Accesses to a device of two blocks, and to one on a file with a part of a third: one that is refused twice, a
write of a block of sevens, and a read of what it has written. -/
theorem media_agree_of_three_accesses : (100 : Nat) < blockSize ∧
    let sevens := (Block.ofFn fun _ => 7).bytes
    let calls := [.read 2 7, .write 1 sevens, .read 1 blockSize]
    ((inMemory 2).serveAll calls).1 = [.error .badBuffer, .ok none, .ok (some sevens)] ∧
      ((onHostFile (2 * blockSize + 100)).serveAll calls).1 =
        List.zipWith (onFile 2) calls ((inMemory 2).serveAll calls).1 := by
  have hsize : (Block.ofFn fun _ => 7).bytes.size = blockSize := (Block.ofFn _).size_bytes
  have hcount : (inMemory 2).blockCount = 2 := rfl
  have hrefused : (inMemory 2).serve (.read 2 7) = (.error .badBuffer, inMemory 2) := serve_refused rfl
  have hwrite : (inMemory 2).serve (.write 1 (Block.ofFn fun _ => 7).bytes) = _ :=
    serve_write ((refusal_eq_none_iff _ _ _).2 ⟨hsize, by rw [hcount]; decide⟩) hsize
  refine ⟨by decide, ?_, (media_agree (n := 2) (r := 100) (by decide) _).1⟩
  rw [serveAll_cons hrefused (serveAll_cons hwrite (serveAll_cons (serve_read
    ((refusal_eq_none_iff _ _ _).2 ⟨rfl, by simp [blockCount, inMemory]⟩) rfl) rfl))]
  simp [serveAll, block, inMemory]

/-- The two media can be told apart: an access of seven bytes to a block that neither has is refused for its size
by memory and for its block by a host file. -/
theorem media_differ_on_wrong_twice : ¬∀ (n r : Nat), r < blockSize → ∀ calls : List Access,
    ((onHostFile (n * blockSize + r)).serveAll calls).1 = ((inMemory n).serveAll calls).1 := by
  intro h
  have hone := h 1 0 (by decide) [.read 1 7]
  have hmemory : ((inMemory 1).serveAll [.read 1 7]).1 = [.error .badBuffer] := rfl
  have hfile : ((onHostFile (1 * blockSize + 0)).serveAll [.read 1 7]).1 = [.error .outOfRange] := rfl
  rw [hmemory, hfile] at hone
  injection hone with hhead _
  injection hhead with hcause
  cases hcause

end Device

end InodeVolume

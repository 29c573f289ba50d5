/-
# Fs.Ext4DirTiled — directory blocks that records tile

`TiledFrom bh size p recs` says that the bytes of a buffer from `p` on are these records,
one behind the other up to the end of the block, each long enough for its name.  On such a
block the walks of `Fs.Ext4DirBytes` do what the functions of `Fs.Ext4Dir` do on the list of
the records: the search finds the record with the name, the insertion and the deletion leave
a tiled block (`add_walk`, `delete_walk`), and no access leaves the buffer.
-/
import Minus.Fs.Ext4DirScan

namespace Minus.Fs.Ext4Bytes

set_option autoImplicit false

open Minus.Theory
open Minus.Fs.Dcache (Errno Name)
open Minus.Fs.Ext4Dir (DirEntry Block Directory entrySize insertIn deleteAfter deleteIn)
open Minus.Fs.Getdents (charByte)

/-! ## Records in bytes -/

/-- The characters of the bytes of a name. -/
def latin (bytes : List UInt8) : Name := bytes.map fun b => Char.ofNat b.toNat

/-- The bytes at `p` are this record; of an unused one only the length counts. -/
structure Shows (bh : Bytes) (p : Nat) (de : DirEntry) : Prop where
  inode : (load32 bh p).toNat = de.inode
  recLen : load16 bh (p + 4) = de.recLen
  nameLen : de.inode ≠ 0 → (bh (p + 6)).toNat = de.name.length
  fileType : de.inode ≠ 0 → bh (p + 7) = de.fileType
  name : de.inode ≠ 0 → latin (upTo (fun i => bh (p + 8 + i)) de.name.length) = de.name

/-- `rec_len` is a multiple of 4, and there is room for the header and the name. -/
structure Roomy (de : DirEntry) : Prop where
  aligned : de.recLen.toNat % 4 = 0
  header : 8 ≤ de.recLen.toNat
  name : de.inode ≠ 0 → 8 + (de.name.length + 3) / 4 * 4 ≤ de.recLen.toNat

def TiledFrom (bh : Bytes) (size : Nat) : Nat → Block → Prop
  | p, [] => p = size
  | p, de :: rest => Shows bh p de ∧ Roomy de ∧ TiledFrom bh size (p + de.recLen.toNat) rest

section Tiled

variable {bh bh' : Bytes} {size p q : Nat} {de : DirEntry} {rest recs : Block} {name : List UInt8}

theorem latin_bytes (bytes : List UInt8) : (latin bytes).map charByte = bytes := by
  rw [latin, List.map_map]
  refine (List.map_congr_left fun b _ => ?_).trans (List.map_id bytes)
  have small := b.toNat_lt
  have valid : b.toNat.isValidChar := .inl (by omega)
  have code : (Char.ofNat b.toNat).toNat = b.toNat := by
    rw [Char.ofNat, dif_pos valid]
    rfl
  rw [Function.comp_apply, charByte, code, UInt8.ofNat_toNat]
  rfl

theorem latin_inj {bytes bytes' : List UInt8} : latin bytes = latin bytes' ↔ bytes = bytes' :=
  ⟨fun same => by rw [← latin_bytes bytes, same, latin_bytes], congrArg latin⟩

@[simp] theorem length_latin (bytes : List UInt8) : (latin bytes).length = bytes.length := List.length_map ..

theorem entrySize_toNat {len : Nat} (short : len ≤ 255) : (entrySize len).toNat = 8 + (len + 3) / 4 * 4 := by
  rw [entrySize, UInt16.toNat_ofNat']
  omega

theorem TiledFrom.le (tiled : TiledFrom bh size p recs) : p ≤ size := by
  induction recs generalizing p with
  | nil => exact Nat.le_of_eq tiled
  | cons de rest ih => exact Nat.le_trans (Nat.le_add_right ..) (ih tiled.2.2)

theorem Shows.short (shows_ : Shows bh p de) (live : de.inode ≠ 0) : de.name.length ≤ 255 := by
  rw [← shows_.nameLen live]
  have := (bh (p + 6)).toNat_lt
  omega

theorem Shows.live_iff (shows_ : Shows bh p de) : load32 bh p ≠ 0 ↔ de.inode ≠ 0 := by
  rw [← shows_.inode, Ne, Ne, ← UInt32.toNat_inj]
  rfl

/-- A record is what its own bytes say. -/
theorem Shows.congr (shows_ : Shows bh p de) (roomy : Roomy de)
    (same : ∀ x, p ≤ x → x < p + de.recLen.toNat → bh' x = bh x) : Shows bh' p de := by
  have header := roomy.header
  refine ⟨?_, ?_, fun live => ?_, fun live => ?_, fun live => ?_⟩
  · rw [load32_congr fun x low high => same x low (by omega), shows_.inode]
  · rw [load16_congr fun x low high => same x (by omega) (by omega), shows_.recLen]
  · rw [same _ (by omega) (by omega), shows_.nameLen live]
  · rw [same _ (by omega) (by omega), shows_.fileType live]
  · have room := roomy.name live
    have bytes : upTo (fun i => bh' (p + 8 + i)) de.name.length = upTo (fun i => bh (p + 8 + i)) de.name.length :=
      List.map_congr_left fun i member => same (p + 8 + i) (by omega) (by
        have := List.mem_range.1 member
        omega)
    rw [bytes, shows_.name live]

theorem TiledFrom.congr (tiled : TiledFrom bh size p recs) (same : ∀ x, p ≤ x → bh' x = bh x) :
    TiledFrom bh' size p recs := by
  induction recs generalizing p with
  | nil => exact tiled
  | cons de rest ih =>
      obtain ⟨shows_, roomy, tail⟩ := tiled
      exact ⟨shows_.congr roomy fun x low _ => same x low, roomy, ih tail fun x low => same x (by omega)⟩

theorem upTo_succ (m : Bytes) (n : Nat) : upTo m (n + 1) = m 0 :: upTo (fun i => m (i + 1)) n := by
  rw [upTo, List.range_succ_eq_map, List.map_cons, List.map_map]
  rfl

theorem strncmp_eq (room : q + name.length ≤ size) :
    strncmp size bh name q = .ok (decide (upTo (fun i => bh (q + i)) name.length = name)) := by
  induction name generalizing q with
  | nil => rfl
  | cons c rest ih =>
      rw [List.length_cons] at room
      rw [strncmp, access_eq_ok.2 ⟨by omega, rfl⟩, ok_bind, List.length_cons, upTo_succ]
      split
      · rename_i same
        rw [ih (by omega)]
        simp only [Nat.add_zero, same, List.cons.injEq, true_and]
        simp only [Nat.add_assoc, Nat.add_comm 1]
      · rename_i other
        simp [other]

/-- **The test of a record.** -/
theorem named_eq (shows_ : Shows bh p de) (roomy : Roomy de) (inside : p + de.recLen.toNat ≤ size)
    (name : List UInt8) : named size bh p name = .ok (decide (de.Named (latin name))) := by
  have header := roomy.header
  rw [named, access_eq_ok.2 ⟨by omega, rfl⟩, ok_bind]
  by_cases live : de.inode = 0
  · rw [if_pos (not_not.1 fun other => shows_.live_iff.1 other live)]
    simp [DirEntry.Named, live]
  · rw [if_neg (shows_.live_iff.2 live), access_eq_ok.2 ⟨by omega, rfl⟩, ok_bind, shows_.nameLen live]
    have room := roomy.name live
    split
    · rename_i length
      rw [strncmp_eq (by omega), Except.ok.injEq, decide_eq_decide, ← length]
      refine ⟨fun same => ⟨live, ?_⟩, fun same => ?_⟩
      · rw [← shows_.name live, same]
      · rw [← latin_inj, shows_.name live, same.2]
    · rename_i other
      have apart : ¬ de.Named (latin name) := fun same => other (by rw [same.2, length_latin])
      rw [decide_eq_false apart]

/-! ## Walking over a tiled block -/

section Walk

variable {σ α : Type} {sc : Scan σ α} {blockSize : UInt32} {dir : Inode} {bread : Buffers} {bidx : UInt32}
  {nr : UInt64} {s s' : σ} {a b : α}

theorem TiledFrom.inside (tiled : TiledFrom bh size p (de :: rest)) : p + de.recLen.toNat ≤ size := tiled.2.2.le

/-- A record that the walk goes on from. -/
theorem TiledFrom.on (tiled : TiledFrom bh blockSize.toNat p (de :: rest))
    (on : sc.record nr bh p s = .ok (.inl s')) :
    Returns (sc.step blockSize dir bread) (.record bidx nr bh p s) a ↔
      Returns (sc.step blockSize dir bread) (.record bidx nr bh (p + de.recLen.toNat) s') a := by
  have inside := tiled.inside
  have header := tiled.2.1.header
  refine returns_inl_iff ?_
  rw [step_record (by omega) on, access_eq_ok.2 ⟨by omega, rfl⟩, ← tiled.1.recLen]
  rfl

/-- A record that the walk stops at. -/
theorem TiledFrom.stop (tiled : TiledFrom bh blockSize.toNat p (de :: rest))
    (stop : sc.record nr bh p s = .ok (.inr b)) :
    Returns (sc.step blockSize dir bread) (.record bidx nr bh p s) b := by
  have inside := tiled.inside
  have header := tiled.2.1.header
  exact returns_of_inr (step_stop (by omega) stop)

/-- The end of the block. -/
theorem TiledFrom.end_ (tiled : TiledFrom bh blockSize.toNat p []) :
    Returns (sc.step blockSize dir bread) (.record bidx nr bh p s) a ↔
      Returns (sc.step blockSize dir bread) (.block (bidx + 1) s) a :=
  returns_inl_iff (step_next (Nat.le_of_eq tiled.symm))

end Walk

section Lookup

variable {blockSize bidx ino : UInt32} {dir : Inode} {bread : Buffers} {nr : UInt64}

/-- Every inode can be had: what is left of a lookup is the number behind the name. -/
def everyInode : UInt64 → Except Fault Bool := fun _ => .ok true

theorem lookup_record (dir : Inode) (name : List UInt8) (nr : UInt64) (shows_ : Shows bh p de) (roomy : Roomy de)
    (inside : p + de.recLen.toNat ≤ blockSize.toNat) :
    (lookupScan blockSize everyInode dir name).record nr bh p () =
      .ok (if de.Named (latin name) then .inr (.ok (some (load32 bh p))) else .inl ()) := by
  show (named blockSize.toNat bh p name >>= _) = _
  rw [named_eq shows_ roomy inside, ok_bind]
  by_cases here : de.Named (latin name)
  · simp [here, everyInode, ok_bind]
  · simp [here]

/-- **The search of a block.** -/
theorem lookup_walk (dir : Inode) (bread : Buffers) (bidx : UInt32) (nr : UInt64) (name : List UInt8)
    (tiled : TiledFrom bh blockSize.toNat p recs) :
    match recs.find? (DirEntry.Named (latin name)) with
    | some de => ∃ ino : UInt32, ino.toNat = de.inode ∧
        Returns ((lookupScan blockSize everyInode dir name).step blockSize dir bread) (.record bidx nr bh p ())
          (.ok (some ino))
    | none => ∀ a,
        Returns ((lookupScan blockSize everyInode dir name).step blockSize dir bread) (.record bidx nr bh p ()) a ↔
        Returns ((lookupScan blockSize everyInode dir name).step blockSize dir bread) (.block (bidx + 1) ()) a := by
  induction recs generalizing p with
  | nil => exact fun a => tiled.end_
  | cons de rest ih =>
      have record := lookup_record dir name nr tiled.1 tiled.2.1 tiled.inside
      by_cases here : de.Named (latin name)
      · rw [List.find?_cons_of_pos (by simpa using here)]
        rw [if_pos here] at record
        exact ⟨_, tiled.1.inode, tiled.stop record⟩
      · rw [List.find?_cons_of_neg (by simpa using here)]
        rw [if_neg here] at record
        have later := ih tiled.2.2
        split at later
        · rename_i found
          obtain ⟨ino, same, returns⟩ := later
          exact ⟨ino, same, (tiled.on record).2 returns⟩
        · exact fun a => (tiled.on record).trans (later a)

end Lookup

/-! ## Writing a record -/

/-- The buffer with a new entry in the record at `p`. -/
def inserted (bh : Bytes) (p : Nat) (name : List UInt8) (ino : UInt32) (type : UInt8) : Bytes :=
  blit (Function.update (Function.update (store32 bh p ino) (p + 6) (UInt8.ofNat name.length)) (p + 7) type)
    (p + 8) name

section Insert

variable {ino : UInt32} {type : UInt8}

theorem insertAt_eq (room : p + (8 + name.length) ≤ size) :
    insertAt size bh p name ino type = .ok (inserted bh p name ino type) := if_pos room

theorem blit_outside {m : Bytes} {x : Nat} (outside : x < p ∨ p + name.length ≤ x) : blit m p name x = m x := by
  unfold blit
  split
  · rw [List.getD_eq_getElem?_getD, List.getElem?_eq_none (by omega), Option.getD_none]
  · rfl

theorem inserted_outside {x : Nat} (outside : x < p ∨ p + 8 + name.length ≤ x ∨ p + 4 ≤ x ∧ x < p + 6) :
    inserted bh p name ino type x = bh x := by
  unfold inserted
  rw [blit_outside (by omega), Function.update_of_ne (by omega), Function.update_of_ne (by omega), store32_outside]
  rw [Set.mem_Ico]
  omega

theorem shows_inserted (bh : Bytes) (p : Nat) (ino : UInt32) (type : UInt8) (short : name.length ≤ 255) :
    Shows (inserted bh p name ino type) p ⟨ino.toNat, load16 bh (p + 4), latin name, type⟩ := by
  have plain {x : Nat} (before : x < p + 8) : inserted bh p name ino type x =
      Function.update (Function.update (store32 bh p ino) (p + 6) (UInt8.ofNat name.length)) (p + 7) type x :=
    blit_outside (.inl before)
  refine ⟨?_, ?_, fun _ => ?_, fun _ => ?_, fun _ => ?_⟩
  · have same : load32 (inserted bh p name ino type) p = load32 (store32 bh p ino) p :=
      load32_congr fun x low high => by
        rw [plain (by omega), Function.update_of_ne (by omega), Function.update_of_ne (by omega)]
    rw [same, load32_store32]
  · exact load16_congr fun x low high => inserted_outside (.inr (.inr ⟨low, high⟩))
  · rw [plain (by omega), Function.update_of_ne (by omega), Function.update_self, UInt8.toNat_ofNat', length_latin]
    exact Nat.mod_eq_of_lt (by omega)
  · rw [plain (by omega), Function.update_self]
  · rw [length_latin, latin_inj]
    apply List.ext_getElem
    · exact length_upTo ..
    · intro i _ below
      rw [getElem_upTo]
      show blit _ (p + 8) name (p + 8 + i) = _
      rw [blit, if_pos (Nat.le_add_right ..), Nat.add_sub_cancel_left, List.getD_eq_getElem?_getD,
        List.getElem?_eq_getElem below, Option.getD_some]

/-- A record whose length is written over. -/
theorem Shows.resized (shows_ : Shows bh p de) {recLen : UInt16} (written : load16 bh' (p + 4) = recLen)
    (same : ∀ x, p ≤ x → x < p + 4 ∨ p + 6 ≤ x → x < p + 8 + de.name.length → bh' x = bh x) :
    Shows bh' p { de with recLen } := by
  refine ⟨?_, written, fun live => ?_, fun live => ?_, fun live => ?_⟩
  · rw [load32_congr fun x low high => same x low (.inl high) (by omega), shows_.inode]
  · rw [same _ (by omega) (by omega) (by omega), shows_.nameLen live]
  · rw [same _ (by omega) (by omega) (by omega), shows_.fileType live]
  · have bytes : upTo (fun i => bh' (p + 8 + i)) de.name.length = upTo (fun i => bh (p + 8 + i)) de.name.length :=
      List.map_congr_left fun i member => same (p + 8 + i) (by omega) (by omega) (by
        have := List.mem_range.1 member
        omega)
    show latin (upTo (fun i => bh' (p + 8 + i)) de.name.length) = de.name
    rw [bytes, shows_.name live]

/-- The end of a live record is cut off for a new entry. -/
def carved (bh : Bytes) (p : Nat) (actual freeSpace : UInt16) : Bytes :=
  store16 (store16 bh (p + actual.toNat + 4) freeSpace) (p + 4) actual

theorem carved_outside {actual freeSpace : UInt16} {x : Nat}
    (far : x < p + actual.toNat + 4 ∨ p + actual.toNat + 6 ≤ x)
    (outside : x < p + 4 ∨ p + 6 ≤ x) : carved bh p actual freeSpace x = bh x := by
  rw [carved, store16_outside, store16_outside]
  all_goals
    rw [Set.mem_Ico]
    omega

/-- The new entry takes an unused record. -/
theorem tiled_take (tiled : TiledFrom bh size p (de :: rest)) (short : name.length ≤ 255)
    (room : 8 + (name.length + 3) / 4 * 4 ≤ de.recLen.toNat) :
    TiledFrom (inserted bh p name ino type) size p
      ({ de with inode := ino.toNat, name := latin name, fileType := type } :: rest) := by
  obtain ⟨shows_, roomy, tail⟩ := tiled
  refine ⟨?_, ⟨roomy.aligned, roomy.header, fun _ => ?_⟩, ?_⟩
  · have new := shows_inserted bh p ino type short
    rwa [shows_.recLen] at new
  · show 8 + ((latin name).length + 3) / 4 * 4 ≤ de.recLen.toNat
    rwa [length_latin]
  · exact tail.congr fun x low => inserted_outside (.inr (.inl (by omega)))

/-- The new entry takes what a live record does not need. -/
theorem tiled_split (tiled : TiledFrom bh size p (de :: rest)) (short : name.length ≤ 255)
    {actual : UInt16} (size_ : actual.toNat = 8 + (de.name.length + 3) / 4 * 4)
    (room : actual.toNat + (8 + (name.length + 3) / 4 * 4) ≤ de.recLen.toNat) :
    TiledFrom (inserted (carved bh p actual (de.recLen - actual)) (p + actual.toNat) name ino type) size p
      ({ de with recLen := actual } :: ⟨ino.toNat, de.recLen - actual, latin name, type⟩ :: rest) := by
  obtain ⟨shows_, roomy, tail⟩ := tiled
  have aligned := roomy.aligned
  have free : (de.recLen - actual).toNat = de.recLen.toNat - actual.toNat :=
    UInt16.toNat_sub_of_le _ _ (UInt16.le_iff_toNat_le.2 (by omega))
  have next : p + actual.toNat + (de.recLen - actual).toNat = p + de.recLen.toNat := by omega
  refine ⟨shows_.resized ?_ fun x low apart high => ?_, ⟨?_, ?_, fun _ => ?_⟩, ?_, ⟨?_, ?_, fun _ => ?_⟩, ?_⟩
  · rw [load16_congr fun x low high => inserted_outside (.inl (by omega)), carved, load16_store16]
  · rw [inserted_outside (.inl (by omega)), carved_outside (.inl (by omega)) apart]
  · show actual.toNat % 4 = 0
    omega
  · show 8 ≤ actual.toNat
    omega
  · exact Nat.le_of_eq size_.symm
  · have new := shows_inserted (carved bh p actual (de.recLen - actual)) (p + actual.toNat) ino type short
    rwa [carved, load16_store16_of_apart _ _ (.inr (by omega)), load16_store16] at new
  · show (de.recLen - actual).toNat % 4 = 0
    omega
  · show 8 ≤ (de.recLen - actual).toNat
    omega
  · show 8 + ((latin name).length + 3) / 4 * 4 ≤ (de.recLen - actual).toNat
    rw [length_latin]
    omega
  · rw [next]
    refine tail.congr fun x low => ?_
    rw [inserted_outside (.inr (.inl (by omega))), carved_outside (.inr (by omega)) (by omega)]

variable {blockSize bidx : UInt32} {dir : Inode} {bread : Buffers} {nr : UInt64} {first : Bool}

theorem add_record (dir : Inode) (ino : UInt32) (type : UInt8) (nr : UInt64) (first : Bool) (shows_ : Shows bh p de)
    (roomy : Roomy de) (inside : p + de.recLen.toNat ≤ blockSize.toNat) (short : name.length ≤ 255) :
    (addScan blockSize dir name ino type).record nr bh p first = .ok (
      if de.inode = 0 then
        if first ∧ entrySize name.length ≤ de.recLen then .inr (.into nr (inserted bh p name ino type)) else .inl false
      else
        let actual := entrySize de.name.length
        if entrySize name.length ≤ de.recLen - actual then
          .inr (.into nr (inserted (carved bh p actual (de.recLen - actual)) (p + actual.toNat) name ino type))
        else .inl false) := by
  have header := roomy.header
  have needed := entrySize_toNat short
  show (access blockSize.toNat (p + 4) 2 _ >>= _) = _
  rw [access_eq_ok.2 ⟨by omega, rfl⟩, ok_bind, access_eq_ok.2 ⟨by omega, rfl⟩, ok_bind, shows_.recLen]
  by_cases live : de.inode = 0
  · rw [if_pos (not_not.1 fun other => shows_.live_iff.1 other live), if_pos live]
    split
    · rename_i takes
      have room := UInt16.le_iff_toNat_le.1 takes.2
      rw [insertAt_eq (by omega), ok_bind]
    · rfl
  · have size_ := entrySize_toNat (shows_.short live)
    have fits := roomy.name live
    rw [if_neg (shows_.live_iff.2 live), if_neg live, access_eq_ok.2 ⟨by omega, rfl⟩, ok_bind, shows_.nameLen live]
    dsimp only
    split
    · rename_i takes
      have room := UInt16.le_iff_toNat_le.1 takes
      rw [UInt16.toNat_sub_of_le _ _ (UInt16.le_iff_toNat_le.2 (by omega))] at room
      rw [insertAt_eq (by omega), ok_bind]
      rfl
    · rfl

/-- **The insertion into a block.** -/
theorem add_walk (dir : Inode) (bread : Buffers) (bidx : UInt32) (nr : UInt64) (ino : UInt32) (type : UInt8)
    (first : Bool)
    (short : name.length ≤ 255) (tiled : TiledFrom bh blockSize.toNat p recs) :
    match insertIn (latin name) ino.toNat type first recs with
    | some recs' => ∃ bh', Returns ((addScan blockSize dir name ino type).step blockSize dir bread)
        (.record bidx nr bh p first) (.into nr bh') ∧ TiledFrom bh' blockSize.toNat p recs' ∧ ∀ x < p, bh' x = bh x
    | none => ∃ s, ∀ a, Returns ((addScan blockSize dir name ino type).step blockSize dir bread)
          (.record bidx nr bh p first) a ↔
        Returns ((addScan blockSize dir name ino type).step blockSize dir bread) (.block (bidx + 1) s) a := by
  induction recs generalizing p first with
  | nil => exact ⟨first, fun a => tiled.end_⟩
  | cons de rest ih =>
      have record := add_record dir ino type nr first tiled.1 tiled.2.1 tiled.inside short
      have needed := entrySize_toNat short
      have later (on : (addScan blockSize dir name ino type).record nr bh p first = .ok (.inl false)) :
          match (insertIn (latin name) ino.toNat type false rest).map (de :: ·) with
          | some recs' => ∃ bh', Returns ((addScan blockSize dir name ino type).step blockSize dir bread)
              (.record bidx nr bh p first) (.into nr bh') ∧ TiledFrom bh' blockSize.toNat p recs' ∧ ∀ x < p, bh' x = bh x
          | none => ∃ s, ∀ a, Returns ((addScan blockSize dir name ino type).step blockSize dir bread)
                (.record bidx nr bh p first) a ↔
              Returns ((addScan blockSize dir name ino type).step blockSize dir bread) (.block (bidx + 1) s) a := by
        have next := ih false tiled.2.2
        split at next
        · rename_i rest' done
          obtain ⟨bh', returns, tail, before⟩ := next
          rw [done]
          refine ⟨bh', (tiled.on on).2 returns, ⟨?_, tiled.2.1, tail⟩, fun x low => before x (by omega)⟩
          exact tiled.1.congr tiled.2.1 fun x _ high => before x high
        · rename_i full
          obtain ⟨s, same⟩ := next
          rw [full]
          exact ⟨s, fun a => (tiled.on on).trans (same a)⟩
      unfold insertIn
      dsimp only at record ⊢
      rw [length_latin]
      by_cases live : de.inode = 0
      · rw [if_pos live] at record ⊢
        by_cases takes : first = true ∧ entrySize name.length ≤ de.recLen
        · rw [if_pos takes] at record
          rw [if_pos takes]
          have room := UInt16.le_iff_toNat_le.1 takes.2
          exact ⟨_, tiled.stop record, tiled_take tiled short (by omega), fun x low => inserted_outside (.inl low)⟩
        · rw [if_neg takes] at record
          rw [if_neg takes]
          exact later record
      · rw [if_neg live] at record ⊢
        have size_ := entrySize_toNat (tiled.1.short live)
        have fits := tiled.2.1.name live
        by_cases takes : entrySize name.length ≤ de.recLen - entrySize de.name.length
        · rw [if_pos takes] at record
          rw [if_pos takes]
          have room := UInt16.le_iff_toNat_le.1 takes
          rw [UInt16.toNat_sub_of_le _ _ (UInt16.le_iff_toNat_le.2 (by omega))] at room
          refine ⟨_, tiled.stop record, tiled_split tiled short size_ (by omega), fun x low => ?_⟩
          rw [inserted_outside (.inl (by omega)), carved_outside (.inl (by omega)) (.inl (by omega))]
        · rw [if_neg takes] at record
          rw [if_neg takes]
          exact later record

end Insert

/-! ## Deleting a record -/

section Delete

variable {blockSize bidx : UInt32} {dir : Inode} {bread : Buffers} {nr : UInt64} {prev : DirEntry}

theorem delete_record (dir : Inode) (name : List UInt8) (nr : UInt64) (shows_ : Shows bh p de) (roomy : Roomy de)
    (inside : p + de.recLen.toNat ≤ blockSize.toNat)
    (before : Option Nat) : (deleteScan blockSize dir name).record nr bh p before = .ok (
      if de.Named (latin name) then
        match before with
        | some q => .inr (.ok (nr, store16 bh (q + 4) (load16 bh (q + 4) + de.recLen)))
        | none => .inr (.ok (nr, store32 bh p 0))
      else .inl (some p)) := by
  have header := roomy.header
  show (named blockSize.toNat bh p name >>= _) = _
  rw [named_eq shows_ roomy inside, ok_bind]
  by_cases here : de.Named (latin name)
  · simp only [here, decide_true, if_true]
    cases before with
    | none => rfl
    | some q =>
        dsimp only
        rw [access_eq_ok.2 ⟨by omega, rfl⟩, ok_bind, shows_.recLen]
  · simp [here]

/-- The record behind `prev` becomes part of it. -/
theorem tiled_merge (shows_ : Shows bh q prev) (roomy : Roomy prev) (small : size < 2 ^ 16)
    (tiled : TiledFrom bh size (q + prev.recLen.toNat) (de :: rest)) :
    TiledFrom (store16 bh (q + 4) (load16 bh (q + 4) + de.recLen)) size q
      ({ prev with recLen := prev.recLen + de.recLen } :: rest) := by
  have inside := tiled.inside
  obtain ⟨_, roomy', tail⟩ := tiled
  have sum : (prev.recLen + de.recLen).toNat = prev.recLen.toNat + de.recLen.toNat := by
    rw [UInt16.toNat_add]
    exact Nat.mod_eq_of_lt (by omega)
  have outside {x : Nat} (apart : x < q + 4 ∨ q + 6 ≤ x) :
      store16 bh (q + 4) (load16 bh (q + 4) + de.recLen) x = bh x := store16_outside _ _ (by rw [Set.mem_Ico]; omega)
  have header := roomy.header
  have aligned := roomy.aligned
  have aligned' := roomy'.aligned
  refine ⟨shows_.resized ?_ fun x _ apart _ => outside apart, ⟨?_, ?_, fun live => ?_⟩, ?_⟩
  · rw [load16_store16, shows_.recLen]
  · show (prev.recLen + de.recLen).toNat % 4 = 0
    omega
  · show 8 ≤ (prev.recLen + de.recLen).toNat
    omega
  · have room := roomy.name live
    show 8 + (prev.name.length + 3) / 4 * 4 ≤ (prev.recLen + de.recLen).toNat
    omega
  · show TiledFrom _ size (q + (prev.recLen + de.recLen).toNat) rest
    rw [sum, ← Nat.add_assoc]
    exact tail.congr fun x low => outside (.inr (by omega))

/-- The first record of a block becomes unused. -/
theorem tiled_unused (tiled : TiledFrom bh size p (de :: rest)) :
    TiledFrom (store32 bh p 0) size p ({ de with inode := 0 } :: rest) := by
  obtain ⟨shows_, roomy, tail⟩ := tiled
  have header := roomy.header
  refine ⟨⟨?_, ?_, fun never => absurd rfl never, fun never => absurd rfl never, fun never => absurd rfl never⟩,
    ⟨roomy.aligned, roomy.header, fun never => absurd rfl never⟩, ?_⟩
  · rw [load32_store32]
    rfl
  · rw [load16_store32_of_apart _ _ (.inr (by omega)), shows_.recLen]
  · exact tail.congr fun x low => store32_outside _ _ (by rw [Set.mem_Ico]; omega)

/-- The rest of a block, behind the record `prev` at `q`. -/
theorem deleteAfter_walk (dir : Inode) (bread : Buffers) (bidx : UInt32) (nr : UInt64) (name : List UInt8)
    (small : blockSize.toNat < 2 ^ 16) (shows_ : Shows bh q prev) (roomy : Roomy prev)
    (tiled : TiledFrom bh blockSize.toNat (q + prev.recLen.toNat) recs) :
    match deleteAfter (latin name) prev recs with
    | some recs' => ∃ bh', Returns ((deleteScan blockSize dir name).step blockSize dir bread)
        (.record bidx nr bh (q + prev.recLen.toNat) (some q)) (.ok (nr, bh')) ∧
          TiledFrom bh' blockSize.toNat q recs' ∧ ∀ x < q, bh' x = bh x
    | none => ∃ s, ∀ a, Returns ((deleteScan blockSize dir name).step blockSize dir bread)
          (.record bidx nr bh (q + prev.recLen.toNat) (some q)) a ↔
        Returns ((deleteScan blockSize dir name).step blockSize dir bread) (.block (bidx + 1) s) a := by
  induction recs generalizing q prev with
  | nil => exact ⟨some q, fun a => tiled.end_⟩
  | cons de rest ih =>
      have record := delete_record dir name nr tiled.1 tiled.2.1 tiled.inside (some q)
      unfold deleteAfter
      by_cases here : de.Named (latin name)
      · rw [if_pos here] at record ⊢
        refine ⟨_, tiled.stop record, tiled_merge shows_ roomy small tiled, fun x low => ?_⟩
        exact store16_outside _ _ (by rw [Set.mem_Ico]; omega)
      · rw [if_neg here] at record ⊢
        have next := ih tiled.1 tiled.2.1 tiled.2.2
        split at next
        · rename_i rest' done
          obtain ⟨bh', returns, tail, before⟩ := next
          rw [done]
          refine ⟨bh', (tiled.on record).2 returns, ⟨?_, roomy, tail⟩, fun x low => before x (by omega)⟩
          exact shows_.congr roomy fun x _ high => before x high
        · rename_i absent
          obtain ⟨s, same⟩ := next
          rw [absent]
          exact ⟨s, fun a => (tiled.on record).trans (same a)⟩

/-- **The deletion from a block.** -/
theorem delete_walk (dir : Inode) (bread : Buffers) (bidx : UInt32) (nr : UInt64) (name : List UInt8)
    (small : blockSize.toNat < 2 ^ 16) (tiled : TiledFrom bh blockSize.toNat p recs) :
    match deleteIn (latin name) recs with
    | some recs' => ∃ bh', Returns ((deleteScan blockSize dir name).step blockSize dir bread)
        (.record bidx nr bh p none) (.ok (nr, bh')) ∧ TiledFrom bh' blockSize.toNat p recs'
    | none => ∃ s, ∀ a, Returns ((deleteScan blockSize dir name).step blockSize dir bread)
          (.record bidx nr bh p none) a ↔
        Returns ((deleteScan blockSize dir name).step blockSize dir bread) (.block (bidx + 1) s) a := by
  cases recs with
  | nil => exact ⟨none, fun a => tiled.end_⟩
  | cons de rest =>
      have record := delete_record dir name nr tiled.1 tiled.2.1 tiled.inside none
      unfold deleteIn
      dsimp only
      by_cases here : de.Named (latin name)
      · rw [if_pos here] at record ⊢
        exact ⟨_, tiled.stop record, tiled_unused tiled⟩
      · rw [if_neg here] at record ⊢
        have next := deleteAfter_walk dir bread bidx nr name small
          tiled.1 tiled.2.1 tiled.2.2
        split at next
        · obtain ⟨bh', returns, tail, -⟩ := next
          exact ⟨bh', (tiled.on record).2 returns, tail⟩
        · obtain ⟨s, same⟩ := next
          exact ⟨s, fun a => (tiled.on record).trans (same a)⟩

end Delete

section Empty

variable {blockSize bidx : UInt32} {dir : Inode} {bread : Buffers} {nr : UInt64}

/-- **The count of a block.** -/
theorem isEmpty_walk (tiled : TiledFrom bh blockSize.toNat p recs) (count : Nat) (a : Except Errno Bool) :
    Returns ((isEmptyScan blockSize).step blockSize dir bread) (.record bidx nr bh p count) a ↔
      Returns ((isEmptyScan blockSize).step blockSize dir bread)
        (.block (bidx + 1) (count + recs.countP (·.inode ≠ 0))) a := by
  induction recs generalizing p count with
  | nil => exact tiled.end_
  | cons de rest ih =>
      have inside := tiled.inside
      have header := tiled.2.1.header
      have record : (isEmptyScan blockSize).record nr bh p count =
          .ok (.inl (if load32 bh p ≠ 0 then count + 1 else count)) := by
        show (access blockSize.toNat p 4 _ >>= _) = _
        rw [access_eq_ok.2 ⟨by omega, rfl⟩, ok_bind]
      rw [tiled.on record, ih tiled.2.2, List.countP_cons]
      simp only [tiled.1.live_iff, decide_eq_true_eq]
      split
      · rw [Nat.add_assoc, Nat.add_comm 1]
      · rfl

end Empty

end Tiled

end Minus.Fs.Ext4Bytes

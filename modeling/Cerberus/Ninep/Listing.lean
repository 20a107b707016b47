import Cerberus.Ninep.Mediation

/-!
# Listing and walking

`ListChildren` should list the names that a walk with the same capability accepts. For a device
directory it makes the check of a walk, but for a directory above a device it lists the next name on
the way to the device as it is, and that may be the device itself, which a walk checks.
-/

namespace Cerberus.Ninep

open Foundation Contract List GoString

variable {σ : Type}

/-- The kernel grants the request. -/
def Grants (s : Server σ) (cap : CapHandle) (w : σ) (req : Request) : Prop :=
  (s.kernel.verify cap req s.now w).1 = none

/-- A walk to the name succeeds. -/
def Accepts (s : Server σ) (n : Node) (name : GoString) (w : σ) : Prop :=
  ∃ r, (n.walk s [name] w).1 = .ok r

/-- The next name on the way to a path. -/
def nextName (dir path : GoString) : GoString := (path.trimPrefix (dir ++ .lit "/")).firstSegment

variable {s : Server σ} {n : Node} {dir name : GoString} {cap : CapHandle} {w : σ}
  {ref : ResourceRef} {d : GoString × ResourceRef} {devs : List (GoString × ResourceRef)}

/-! ### What is listed -/

lemma ne_of_under {path : GoString} (h : path.under dir = true) : path ≠ dir := by
  rintro rfl
  obtain ⟨rest, hrest⟩ := under_iff.mp h
  have hlen := congrArg List.length hrest
  rw [length_append, length_cons] at hlen
  omega

/-- The name is listed for the device: as a leaf of it, or on the way to it. -/
def Lists (s : Server σ) (cap : CapHandle) (w : σ) (dir name : GoString)
    (d : GoString × ResourceRef) : Prop :=
  d.1 = dir ∧ Grants s cap w ⟨.lit "read", d.2⟩ ∧ name ∈ [GoString.lit "ctl", .lit "info"] ∨
    d.1.under dir = true ∧ name = nextName dir d.1

lemma mem_listDevice_iff :
    name ∈ (s.listDevice dir cap d w).1 ↔ Lists s cap w dir name d := by
  unfold Server.listDevice Lists
  split_ifs with hdir hunder
  · have hnot : ¬ d.1.under dir = true := fun h => ne_of_under h hdir
    rw [or_iff_left fun h => hnot h.1, and_iff_right hdir]
    unfold Grants Server.check
    rcases s.kernel.verify cap ⟨.lit "read", d.2⟩ s.now w with ⟨_ | e, w'⟩
    · simp
    · simp
  · simp [hdir, hunder, nextName]
  · simp [hdir, hunder]

lemma snd_listDevice_of_ne (h : d.1 ≠ dir) : (s.listDevice dir cap d w).2 = w := by
  rw [Server.listDevice, if_neg h]
  split_ifs
  · rfl
  · rfl

lemma lists_iff_of_ne (h : d.1 ≠ dir) (v : σ) :
    Lists s cap v dir name d ↔ Lists s cap w dir name d := by
  simp [Lists, h]

lemma mem_listDevices_of_ne (h : ∀ d ∈ devs, d.1 ≠ dir) :
    name ∈ (s.listDevices dir cap devs w).1 ↔ ∃ d ∈ devs, Lists s cap w dir name d := by
  induction devs with
  | nil => simp [Server.listDevices]
  | cons d devs ih =>
    have htail : ∀ d' ∈ devs, d'.1 ≠ dir := fun d' hd' => h d' (mem_cons_of_mem _ hd')
    simp only [Server.listDevices, snd_listDevice_of_ne (h d mem_cons_self), mem_append,
      mem_listDevice_iff, ih htail, exists_mem_cons_iff]

lemma mem_listDevices_iff (hdevs : (devs.map Prod.fst).Nodup) :
    name ∈ (s.listDevices dir cap devs w).1 ↔ ∃ d ∈ devs, Lists s cap w dir name d := by
  induction devs with
  | nil => simp [Server.listDevices]
  | cons d devs ih =>
    rw [map_cons, nodup_cons] at hdevs
    simp only [Server.listDevices, mem_append, mem_listDevice_iff, exists_mem_cons_iff]
    refine or_congr_right ?_
    by_cases hd : d.1 = dir
    · -- the device of the directory: no other one is registered there
      have hne : ∀ d' ∈ devs, d'.1 ≠ dir := by
        rintro d' hd' heq
        exact hdevs.1 (mem_map.mpr ⟨d', hd', heq.trans hd.symm⟩)
      rw [mem_listDevices_of_ne hne]
      exact exists_congr fun d' => and_congr_right fun hd' => lists_iff_of_ne (hne d' hd') _
    · rw [snd_listDevice_of_ne hd]
      exact ih hdevs.2

lemma exists_lists_iff : (∃ d ∈ devs, Lists s cap w dir name d) ↔
    (∃ ref, (dir, ref) ∈ devs ∧ Grants s cap w ⟨.lit "read", ref⟩ ∧
      name ∈ [GoString.lit "ctl", .lit "info"]) ∨
    ∃ d ∈ devs, d.1.under dir = true ∧ name = nextName dir d.1 := by
  simp only [Lists, and_or_left, exists_or]
  refine or_congr_left ⟨?_, ?_⟩
  · rintro ⟨⟨_, ref⟩, hmem, rfl, hgrants⟩
    exact ⟨ref, hmem, hgrants⟩
  · rintro ⟨ref, hmem, hgrants⟩
    exact ⟨(dir, ref), hmem, rfl, hgrants⟩

lemma mem_listChildren_iff (hdevs : devs.Perm s.devices.entries) (arg : GoString) :
    name ∈ (s.listChildren devs arg cap w).1 ↔ name ≠ .lit "" ∧
      ((∃ ref, (arg.trimRightSlashes, ref) ∈ s.devices.entries ∧
          Grants s cap w ⟨.lit "read", ref⟩ ∧ name ∈ [GoString.lit "ctl", .lit "info"]) ∨
        (∃ d ∈ s.devices.entries, d.1.under arg.trimRightSlashes = true ∧
          name = nextName arg.trimRightSlashes d.1) ∨
        arg.trimRightSlashes = .lit "/cer" ∧ s.fs.isSome = true ∧ name = .lit "fs") := by
  have hnodup : (devs.map Prod.fst).Nodup :=
    (hdevs.map Prod.fst).nodup_iff.mpr s.devices.keys_nodup
  have hroot : rootPath = .lit "/cer" := rfl
  unfold Server.listChildren
  simp only [mem_eraseDups, mem_filter, mem_append, mem_listDevices_iff hnodup,
    exists_lists_iff, hdevs.mem_iff, hroot, or_self, decide_eq_true_eq]
  rw [and_comm, or_assoc]
  refine and_congr_right fun _ => or_congr_right (or_congr_right ?_)
  split_ifs with hfs
  · simp [hfs]
  · rw [← and_assoc]
    exact iff_of_false not_mem_nil fun h => hfs h.1

/-! ### What is accepted -/

lemma accepts_iff : Accepts s n name w ↔ badName name = false ∧
    match Node.decision s (n, name) with
    | .inl req => Grants s n.cap w req
    | .inr res => res = none := by
  have hwalk : Accepts s n name w ↔ badName name = false ∧ (n.enter s name w).1 = none := by
    unfold Accepts Node.walk
    rw [if_neg (cons_ne_nil name []), Node.walkFrom]
    cases badName name with
    | true => simp
    | false =>
      simp only [Bool.false_eq_true, if_false, true_and]
      rcases n.enter s name w with ⟨_ | e, w'⟩
      · exact iff_of_true ⟨_, rfl⟩ rfl
      · simp
  rw [hwalk, Node.enter_eq]
  refine and_congr_right fun _ => ?_
  cases Node.decision s (n, name) with
  | inl req => rfl
  | inr res => rfl

structure Below (dir name : GoString) : Prop where
  trimmed : dir.trimRightSlashes = dir
  ne : name ≠ .lit ""
  slash : 0x2F ∉ name.bytes

section

variable (h : Below dir name)
include h

lemma Below.joinPath : joinPath dir name = dir ++ .lit "/" ++ name :=
  if_neg (trimRightSlashes_eq_self_iff.mp h.trimmed)

lemma Below.trim : (dir ++ .lit "/" ++ name).trimRightSlashes = dir ++ .lit "/" ++ name :=
  trimRightSlashes_join dir h.ne h.slash

lemma Below.badName_iff : badName name = false ↔ name ≠ .lit "." := by
  unfold badName
  simp [h.ne, h.slash]

lemma Below.fsSubPath (hfs : (dir ++ .lit "/" ++ name).under fsRoot = true) :
    ∃ sub, fsSubPath (dir ++ .lit "/" ++ name) = some sub ∧
      fsRoot ++ .lit "/" ++ sub = dir ++ .lit "/" ++ name := by
  have hrest := trimPrefix_of_under hfs
  unfold Ninep.fsSubPath
  simp only [h.trim, hfs, if_true]
  rw [if_neg]
  · exact ⟨_, rfl, hrest⟩
  · intro hempty
    rw [hempty] at hrest
    have hlast := trimRightSlashes_eq_self_iff.mp h.trim
    rw [← hrest] at hlast
    exact hlast rfl

lemma Below.decision (hn : n.path = dir) : Node.decision s (n, name) =
    if dir ++ .lit "/" ++ name = fsRoot then .inr none
    else if (dir ++ .lit "/" ++ name).under fsRoot then
      .inl ⟨.lit "read", fsResource (dir ++ .lit "/" ++ name)⟩
    else if isLeaf name then
      match s.deviceFor dir with
      | none => .inr (some (noSuchPath dir))
      | some (_, ref) => .inl ⟨.lit "read", ref⟩
    else if s.isAncestorDir (dir ++ .lit "/" ++ name) then .inr none
    else
      match s.deviceFor (dir ++ .lit "/" ++ name) with
      | none => .inr (some (noSuchPath (dir ++ .lit "/" ++ name)))
      | some (_, ref) => .inl ⟨.lit "read", ref⟩ := by
  unfold Node.decision Node.hopPath
  simp only [hn, h.joinPath, isFSPath, h.trim, Bool.or_eq_true, decide_eq_true_eq]
  by_cases hroot : dir ++ .lit "/" ++ name = fsRoot
  · simp only [hroot, true_or, if_true]
  · by_cases hunder : (dir ++ .lit "/" ++ name).under fsRoot = true
    · obtain ⟨sub, hsub, hfull⟩ := h.fsSubPath hunder
      simp only [hroot, hunder, or_true, if_true, if_false, hsub, hfull]
    · simp only [hroot, hunder, if_false]
      rfl

end

/-- The walk to a leaf of a device on which reading is granted: under `/cer/fs` it takes the grant for
a file, and the device at the empty path is not found. -/
def LeafWalkable (s : Server σ) (cap : CapHandle) (w : σ) (dir leaf : GoString) : Prop :=
  if (dir ++ .lit "/" ++ leaf).under fsRoot then
    Grants s cap w ⟨.lit "read", fsResource (dir ++ .lit "/" ++ leaf)⟩
  else dir ≠ .lit ""

/-- The walk to the next name on the way to a device: it takes a grant for a file under `/cer/fs`, for
the device of the directory if the name is that of a leaf, and for the device itself if it is
reached and no other device is below it. -/
def NextWalkable (s : Server σ) (cap : CapHandle) (w : σ) (dir : GoString)
    (d : GoString × ResourceRef) : Prop :=
  nextName dir d.1 ≠ .lit "." ∧
    if dir ++ .lit "/" ++ nextName dir d.1 = fsRoot then True
    else if (dir ++ .lit "/" ++ nextName dir d.1).under fsRoot then
      Grants s cap w ⟨.lit "read", fsResource (dir ++ .lit "/" ++ nextName dir d.1)⟩
    else if isLeaf (nextName dir d.1) then
      ∃ d', s.deviceFor dir = some d' ∧ Grants s cap w ⟨.lit "read", d'.2⟩
    else d.1 = dir ++ .lit "/" ++ nextName dir d.1 →
      (∀ d' ∈ s.devices.entries, d'.1.under (dir ++ .lit "/" ++ nextName dir d.1) = false) →
      Grants s cap w ⟨.lit "read", d.2⟩

lemma accepts_leaf_iff (hdir : dir.trimRightSlashes = dir) (hn : n.path = dir)
    (hmem : (dir, ref) ∈ s.devices.entries) (hgrants : Grants s n.cap w ⟨.lit "read", ref⟩)
    (hname : name ∈ [GoString.lit "ctl", .lit "info"]) :
    Accepts s n name w ↔ LeafWalkable s n.cap w dir name := by
  have hleaf : Below dir name ∧ isLeaf name = true ∧ name ≠ .lit "." ∧
      dir ++ .lit "/" ++ name ≠ fsRoot := by
    have hlast : ∀ last : UInt8, name.bytes.getLast? = some last → last ≠ 0x73 →
        dir ++ .lit "/" ++ name ≠ fsRoot := by
      intro last hlast hne heq
      have hroot := congrArg (fun path => path.bytes.getLast?) heq
      simp only [bytes_append (dir ++ .lit "/"), List.getLast?_append, hlast] at hroot
      exact hne (Option.some.inj hroot)
    rcases mem_pair.mp hname with rfl | rfl
    · exact ⟨⟨hdir, by decide, by decide⟩, by decide, by decide, hlast 0x6C rfl (by decide)⟩
    · exact ⟨⟨hdir, by decide, by decide⟩, by decide, by decide, hlast 0x6F rfl (by decide)⟩
  obtain ⟨hbelow, hisLeaf, hdot, hroot⟩ := hleaf
  rw [accepts_iff, hbelow.badName_iff, hbelow.decision hn, if_neg hroot, LeafWalkable,
    and_iff_right hdot]
  split_ifs with hfs
  · rfl
  · by_cases hempty : dir = .lit ""
    · have hnone : s.deviceFor dir = none := by
        refine deviceFor_eq_none_iff.mpr fun d _ hcovers => ?_
        rw [hempty] at hcovers
        exact GoString.ext (prefix_nil.mp hcovers.isPrefix)
      rw [hnone]
      simp [hempty]
    · have hsome : s.deviceFor dir = some (dir, ref) :=
        deviceFor_eq_some_iff.mpr ⟨owner_self hmem, hempty⟩
      rw [hsome]
      exact iff_of_true hgrants hempty

lemma accepts_next_iff (hdir : dir.trimRightSlashes = dir) (hn : n.path = dir)
    (hmem : d ∈ s.devices.entries) (hunder : d.1.under dir = true)
    (hne : nextName dir d.1 ≠ .lit "") :
    Accepts s n (nextName dir d.1) w ↔ NextWalkable s n.cap w dir d := by
  have hbelow : Below dir (nextName dir d.1) :=
    ⟨hdir, hne, slash_notMem_firstSegment _⟩
  have hpath : dir ++ .lit "/" ++ nextName dir d.1 ≠ .lit "" := by
    intro heq
    have hbytes := congrArg GoString.bytes heq
    rw [bytes_append] at hbytes
    exact hne (GoString.ext (append_eq_nil_iff.mp hbytes).2)
  rw [accepts_iff, hbelow.badName_iff, hbelow.decision hn, NextWalkable]
  refine and_congr_right fun _ => ?_
  split_ifs with hroot hfs hleaf hanc
  · simp
  · rfl
  · cases s.deviceFor dir with
    | none => simp
    | some d' => simp
  · obtain ⟨d', hd', hbelow'⟩ := (isAncestorDir_iff hbelow.trim hpath).mp hanc
    refine iff_of_true rfl fun _ hall => ?_
    rw [hall d' hd'] at hbelow'
    cases hbelow'
  · have hcovers := covers_next hunder
    have hnot : ∀ d' ∈ s.devices.entries,
        d'.1.under (dir ++ .lit "/" ++ nextName dir d.1) = false := by
      intro d' hd'
      rw [Bool.eq_false_iff]
      exact fun h => hanc ((isAncestorDir_iff hbelow.trim hpath).mpr ⟨d', hd', h⟩)
    have heq : d.1 = dir ++ .lit "/" ++ nextName dir d.1 := by
      refine hcovers.resolve_right fun h => ?_
      have hfalse := hnot d hmem
      rw [nextName, h] at hfalse
      cases hfalse
    have hsome : s.deviceFor (dir ++ .lit "/" ++ nextName dir d.1) = some d := by
      refine deviceFor_eq_some_iff.mpr ⟨?_, heq ▸ hpath⟩
      rw [← heq]
      exact owner_self hmem
    rw [hsome]
    exact ⟨fun h _ _ => h, fun h => h heq hnot⟩

lemma accepts_fs (hn : n.path = .lit "/cer") : Accepts s n (.lit "fs") w := by
  have hbelow : Below (.lit "/cer") (.lit "fs") := ⟨by decide, by decide, by decide⟩
  rw [accepts_iff, hbelow.badName_iff, hbelow.decision hn, if_pos (by decide)]
  exact ⟨by decide, rfl⟩

/-- Every name that is listed for a directory is accepted by a walk from it with the same capability,
iff the walks to the leaves of its own device and to the next names on the way to the devices
below it get the grants that they take. -/
theorem listed_walkable_iff (s : Server σ) (devs : List (GoString × ResourceRef))
    (hdevs : devs.Perm s.devices.entries) (dir : GoString) (cap : CapHandle) (w : σ)
    (isDir fsFile : Bool) (data : List UInt8) :
    (∀ name ∈ (s.listChildren devs dir cap w).1,
      Accepts s ⟨cap, dir.trimRightSlashes, isDir, fsFile, data⟩ name w) ↔
    (∀ ref, (dir.trimRightSlashes, ref) ∈ s.devices.entries →
      Grants s cap w ⟨.lit "read", ref⟩ → ∀ leaf ∈ [GoString.lit "ctl", .lit "info"],
        LeafWalkable s cap w dir.trimRightSlashes leaf) ∧
    ∀ d ∈ s.devices.entries, d.1.under dir.trimRightSlashes = true →
      nextName dir.trimRightSlashes d.1 ≠ .lit "" →
        NextWalkable s cap w dir.trimRightSlashes d := by
  have hdir := trimRightSlashes_trimRightSlashes dir
  constructor
  · intro h
    refine ⟨fun ref hmem hgrants leaf hleaf => ?_, fun d hmem hunder hne => ?_⟩
    · have hne : leaf ≠ .lit "" := by
        rintro rfl
        exact absurd hleaf (by decide)
      have hlisted := (mem_listChildren_iff hdevs dir).mpr
        ⟨hne, .inl ⟨ref, hmem, hgrants, hleaf⟩⟩
      exact (accepts_leaf_iff hdir rfl hmem hgrants hleaf).mp (h leaf hlisted)
    · have hlisted : nextName dir.trimRightSlashes d.1 ∈ (s.listChildren devs dir cap w).1 :=
        (mem_listChildren_iff hdevs dir).mpr ⟨hne, .inr (.inl ⟨d, hmem, hunder, rfl⟩)⟩
      exact (accepts_next_iff hdir rfl hmem hunder hne).mp (h _ hlisted)
  · rintro ⟨hleaves, hnext⟩ name hname
    obtain ⟨hne, hcases⟩ := (mem_listChildren_iff hdevs dir).mp hname
    rcases hcases with ⟨ref, hmem, hgrants, hleaf⟩ | ⟨d, hmem, hunder, rfl⟩ | ⟨hroot, -, rfl⟩
    · exact (accepts_leaf_iff hdir rfl hmem hgrants hleaf).mpr
        (hleaves ref hmem hgrants name hleaf)
    · exact (accepts_next_iff hdir rfl hmem hunder hne).mpr (hnext d hmem hunder hne)
    · exact accepts_fs hroot

/-- The directory of the only device is listed above it, and is accepted when reading the device is
granted. -/
theorem listed_walkable_iff_sample :
    GoString.lit "a" ∈ (Node.Sample.granting.listChildren Node.Sample.granting.devices.entries
      (.lit "/cer/dev/") 7 ()).1 ∧
    Accepts Node.Sample.granting ⟨7, .lit "/cer/dev", true, false, []⟩ (.lit "a") () := by
  have hlisted : GoString.lit "a" ∈ (Node.Sample.granting.listChildren
      Node.Sample.granting.devices.entries (.lit "/cer/dev/") 7 ()).1 := by decide +kernel
  refine ⟨hlisted, (listed_walkable_iff Node.Sample.granting _ (List.Perm.refl _)
    (.lit "/cer/dev/") 7 () true false []).mpr ⟨?_, ?_⟩ _ hlisted⟩
  · intro ref hmem
    obtain ⟨hdir, -⟩ := Prod.mk.inj (List.mem_singleton.mp hmem)
    exact absurd hdir (by decide)
  · intro d hd _ _
    obtain rfl := List.mem_singleton.mp hd
    refine ⟨by decide, ?_⟩
    rw [if_neg (by decide), if_neg (by decide), if_neg (by decide)]
    exact fun _ _ => rfl

/-- The path of the device that the daemon registers. -/
def localVram : GoString := .lit "/cer/dev/vram/local/0"

/-- A namespace with that device, and a kernel that denies everything. -/
def deniedVram : Server Unit :=
  (Server.new (Node.Sample.answering (some (errf ErrorCode.denied (.lit "denied"))))).register
    localVram (Node.Sample.vram localVram)

/-- The device directory is listed for a capability whose walk to it is denied. -/
theorem listed_unwalkable :
    (deniedVram.listChildren deniedVram.devices.entries (.lit "/cer/dev/vram/local") 7 ()).1 =
      [.lit "0"] ∧
    ¬ Accepts deniedVram ⟨7, .lit "/cer/dev/vram/local", true, false, []⟩ (.lit "0") () := by
  refine ⟨by decide +kernel, ?_⟩
  rintro ⟨r, hr⟩
  cases hr

end Cerberus.Ninep

import Clawreform.Kernel.SelfModify

namespace Clawreform.Kernel.SelfModify

open Clawreform.Lib Clawreform.Lib.Text Clawreform.Lib.Program Clawreform.Lib.FileStore
open Clawreform.Lib.Utf8 (encode)
open Clawreform.Runtime.WorkspaceSandbox (Component components)

section Places

def isNormal : Component → Bool
  | .normal _ => true
  | _ => false

/-- A path relative to a directory, straight down from it. -/
def plain (path : Str) : Bool := components path ≠ [] && (components path).all isNormal

def names (path : Str) : Loc := place [] path

variable {base loc a b : Loc} {path : Str} {cs : List Component}

theorem foldl_enter (h : cs.all isNormal) (base : Loc) :
    cs.foldl enter base = base ++ cs.foldl enter [] ∧
      (cs.foldl enter base).length = base.length + cs.length := by
  induction cs generalizing base with
  | nil => simp
  | cons c cs ih =>
    simp only [List.all_cons, Bool.and_eq_true] at h
    cases c with
    | normal name =>
      obtain ⟨hbase, hlength⟩ := ih h.2 (base ++ [name])
      obtain ⟨hnil, -⟩ := ih h.2 [name]
      constructor
      · show cs.foldl enter (base ++ [name]) = base ++ cs.foldl enter [name]
        rw [hbase, hnil, List.append_assoc]
      · show (cs.foldl enter (base ++ [name])).length = _
        rw [hlength]
        simp
        omega
    | rootDir => simp [isNormal] at h
    | curDir => simp [isNormal] at h
    | parentDir => simp [isNormal] at h

theorem all_of_plain (h : plain path) : (components path).all isNormal := by
  simp only [plain, Bool.and_eq_true] at h
  exact h.2

theorem components_ne_nil (h : plain path) : components path ≠ [] := by
  simp only [plain, Bool.and_eq_true, decide_eq_true_eq] at h
  exact h.1

theorem place_eq (h : plain path) (base : Loc) : place base path = base ++ names path :=
  (foldl_enter (all_of_plain h) base).1

theorem names_ne_nil (h : plain path) : names path ≠ [] := by
  intro hnil
  have hlength := (foldl_enter (all_of_plain h) []).2
  have hpos := List.length_pos_of_ne_nil (components_ne_nil h)
  rw [← place, ← names, hnil, List.length_nil] at hlength
  omega

theorem parentPlace_eq (h : plain path) (base : Loc) :
    parentPlace base path = base ++ (names path).dropLast := by
  have hne := components_ne_nil h
  obtain ⟨front, c, hcs⟩ := (List.eq_nil_or_concat' _).resolve_left hne
  have hall := all_of_plain h
  rw [hcs, List.all_append, Bool.and_eq_true] at hall
  rw [parentPlace, if_neg hne, names, place, hcs, List.dropLast_concat, List.foldl_append,
    (foldl_enter hall.1 base).1]
  cases c with
  | normal name => simp [enter]
  | rootDir => simp [isNormal] at hall
  | curDir => simp [isNormal] at hall
  | parentDir => simp [isNormal] at hall

theorem dropLast_place (h : plain path) (base : Loc) :
    (place base path).dropLast = parentPlace base path := by
  rw [place_eq h, parentPlace_eq h, List.dropLast_append_of_ne_nil (names_ne_nil h)]

/-- Neither directory lies in the other. -/
def Apart (a b : Loc) : Prop := ¬ a <+: b ∧ ¬ b <+: a

instance : Decidable (Apart a b) := inferInstanceAs (Decidable (_ ∧ _))

theorem Apart.below (h : Apart a b) (c : Loc) : Apart a (b ++ c) := by
  constructor
  · intro hab
    obtain hcase | hcase := List.prefix_or_prefix_of_prefix hab (List.prefix_append b c)
    · exact h.1 hcase
    · exact h.2 hcase
  · exact fun hba => h.2 ((List.prefix_append b c).trans hba)

theorem Apart.elim (h : Apart a b) (ha : a <+: loc) (hb : b <+: loc) : False := by
  obtain hab | hba := List.prefix_or_prefix_of_prefix ha hb
  · exact h.1 hab
  · exact h.2 hba

end Places

section Conditions

variable (sourceDir backupPath : Loc)

/-- The paths of a plan lie below the root, none of them inside another, and none where the
metadata of the backup goes. -/
structure Orderly (files : List FileChange) : Prop where
  plain : ∀ f ∈ files, plain f.path
  metadata : ∀ f ∈ files, names f.path ≠ [metadataName]
  nested : ∀ f ∈ files, ∀ g ∈ files, names f.path <+: names g.path → names f.path = names g.path

/-- A file that a change creates over is also one that another change names. -/
def Covered (files : List FileChange) (tree : Volume) : Prop :=
  ∀ f ∈ files, f.changeType = .create → tree.isFile (place sourceDir f.path) →
    ∃ g ∈ files, g.changeType ≠ .create ∧ names g.path = names f.path

/-- Nothing stands in the directory of the backup where no file is copied to. -/
def Fresh (files : List FileChange) (tree : Volume) : Prop :=
  ∀ f ∈ files, (∀ g ∈ files, g.changeType ≠ .create → names g.path = names f.path →
    ¬ tree.exists (place sourceDir g.path)) → tree.node (place backupPath f.path) = none

instance (files : List FileChange) (tree : Volume) : Decidable (Covered sourceDir files tree) :=
  inferInstanceAs (Decidable (∀ f ∈ files, _ → _ → ∃ g ∈ files, _))

instance (files : List FileChange) (tree : Volume) :
    Decidable (Fresh sourceDir backupPath files tree) :=
  inferInstanceAs (Decidable (∀ f ∈ files, (∀ g ∈ files, _ → _ → _) → _))

/-- Whether a change that fails can have altered its file. -/
def leavesTraces (faults : Faults) : Bool :=
  match faults.write with
  | .failed (some _) => true
  | _ => false

/-- Whether a change alters a file. -/
def alters (file : FileChange) (tree : Volume) : Bool :=
  file.changeType ≠ .delete || tree.exists (place sourceDir file.path)

/-- Whether a change fails once a file has been altered. -/
def failsLate (debugStr : Str → Str) (faults : Nat → Faults) :
    Bool → Volume → List (FileChange × Nat) → Bool
  | _, _, [] => false
  | altered, tree, p :: rest =>
    match applyChange debugStr sourceDir (faults p.2) p.1 tree with
    | .error _ _ => altered || leavesTraces (faults p.2)
    | .ok () tree' =>
      failsLate debugStr faults (altered || alters sourceDir p.1 tree) tree' rest

end Conditions

section BackingUp

variable {sourceDir bp : Loc} {files done : List FileChange} {f g : FileChange} {faults : Faults}
  {tree v : Volume}

theorem place_inj (horder : Orderly files) (hf : f ∈ files) (hg : g ∈ files)
    (h : place bp g.path = place bp f.path) : names g.path = names f.path := by
  rw [place_eq (horder.plain g hg), place_eq (horder.plain f hf)] at h
  exact List.append_cancel_left h

theorem place_congr (horder : Orderly files) (hf : f ∈ files) (hg : g ∈ files)
    (h : names g.path = names f.path) (base : Loc) : place base g.path = place base f.path := by
  rw [place_eq (horder.plain g hg), place_eq (horder.plain f hf), h]

/-- No file of the plan stands on the way to another. -/
theorem not_place_prefix (horder : Orderly files) (hf : f ∈ files) (hg : g ∈ files) :
    ¬ place bp g.path <+: parentPlace bp f.path := by
  intro hprefix
  rw [place_eq (horder.plain g hg), parentPlace_eq (horder.plain f hf),
    List.prefix_append_right_inj] at hprefix
  have heq := horder.nested g hg f hf (List.IsPrefix.trans hprefix (List.dropLast_prefix _))
  have hlength := hprefix.length_le
  have hpos := List.length_pos_of_ne_nil (names_ne_nil (horder.plain f hf))
  rw [heq, List.length_dropLast] at hlength
  omega

/-- Nothing has changed but in the directory of the backup and on the way to it. -/
def Same (bp : Loc) (tree v : Volume) : Prop :=
  ∀ loc, ¬ bp <+: loc → ¬ loc <+: bp → v.node loc = tree.node loc

theorem Same.source (h : Same bp tree v) (hapart : Apart sourceDir bp) {loc : Loc}
    (hloc : sourceDir <+: loc) : v.node loc = tree.node loc :=
  h loc (fun hbp => hapart.elim hloc hbp) fun hway => hapart.1 (hloc.trans hway)

theorem Same.set {n : Option Node} {l : Loc} {hdir : v.node l ≠ some .dir}
    {hup : v.node l.dropLast = some .dir} (h : Same bp tree v) (hl : bp <+: l ∨ l <+: bp) :
    Same bp tree (v.set l n hdir hup) := by
  intro loc hin hway
  rw [Volume.node_set_of_ne]
  · exact h loc hin hway
  · rintro rfl
    exact hl.elim hin hway

/-- Part of the files have been copied. -/
structure Backing (sourceDir bp : Loc) (files done : List FileChange) (tree v : Volume) : Prop where
  same : Same bp tree v
  copied : ∀ f ∈ done, f.changeType ≠ .create → tree.exists (place sourceDir f.path) →
    ∃ bytes, tree.node (place sourceDir f.path) = some (.file bytes) ∧
      v.node (place bp f.path) = some (.file bytes)
  rest : ∀ f ∈ files, (∀ g ∈ done, g.changeType ≠ .create → names g.path = names f.path →
    ¬ tree.exists (place sourceDir g.path)) → v.node (place bp f.path) = tree.node (place bp f.path)

theorem Backing.skip (h : Backing sourceDir bp files done tree v)
    (hskip : f.changeType ≠ .create → ¬ tree.exists (place sourceDir f.path)) :
    Backing sourceDir bp files (done ++ [f]) tree v where
  same := h.same
  copied g hg hcreate hexists := by
    obtain hdone | hlast := List.mem_append.mp hg
    · exact h.copied g hdone hcreate hexists
    · obtain rfl := List.mem_singleton.mp hlast
      exact absurd hexists (hskip hcreate)
  rest g hg hnot := h.rest g hg fun k hk => hnot k (List.mem_append_left _ hk)

theorem Backing.makeDir (horder : Orderly files) (hf : f ∈ files)
    (h : Backing sourceDir bp files done tree v) {l : Loc} {hdir : v.node l ≠ some .dir}
    {hup : v.node l.dropLast = some .dir} (hl : l <+: parentPlace bp f.path)
    (hnone : v.node l = none) :
    Backing sourceDir bp files done tree (v.set l (some .dir) hdir hup) where
  same := by
    rw [parentPlace_eq (horder.plain f hf)] at hl
    exact h.same.set (List.prefix_or_prefix_of_prefix (List.prefix_append _ _) hl)
  copied g hg hcreate hexists := by
    obtain ⟨bytes, hsrc, hdst⟩ := h.copied g hg hcreate hexists
    refine ⟨bytes, hsrc, ?_⟩
    rw [Volume.node_set_of_ne]
    · exact hdst
    · rintro rfl
      rw [hnone] at hdst
      cases hdst
  rest g hg hnot := by
    rw [Volume.node_set_of_ne]
    · exact h.rest g hg hnot
    · rintro rfl
      exact not_place_prefix horder hf hg hl

theorem Backing.copy (horder : Orderly files) (hdone : ∀ g ∈ done, g ∈ files) (hf : f ∈ files)
    (h : Backing sourceDir bp files done tree v) {bytes : List UInt8}
    {hdir : v.node (place bp f.path) ≠ some .dir}
    {hup : v.node (place bp f.path).dropLast = some .dir} (hcreate : f.changeType ≠ .create)
    (hsrc : tree.node (place sourceDir f.path) = some (.file bytes)) :
    Backing sourceDir bp files (done ++ [f]) tree
      (v.set (place bp f.path) (some (.file bytes)) hdir hup) where
  same := h.same.set (Or.inl (place_eq (horder.plain f hf) bp ▸ List.prefix_append _ _))
  copied g hg hgcreate hexists := by
    have hcases : g ∈ done ∨ g = f := by simpa using hg
    have hgfiles : g ∈ files := hcases.elim (hdone g) fun hgf => hgf ▸ hf
    by_cases hplace : place bp g.path = place bp f.path
    · have hnames := place_inj horder hf hgfiles hplace
      refine ⟨bytes, ?_, ?_⟩
      · rw [place_congr horder hf hgfiles hnames]
        exact hsrc
      · rw [hplace, Volume.node_set_self]
    · obtain hg | rfl := hcases
      · obtain ⟨bytes', hsrc', hdst⟩ := h.copied g hg hgcreate hexists
        exact ⟨bytes', hsrc', by rw [Volume.node_set_of_ne hplace, hdst]⟩
      · exact absurd rfl hplace
  rest g hg hnot := by
    have hne : place bp g.path ≠ place bp f.path := by
      intro hplace
      have hnames := place_inj horder hf hg hplace
      exact hnot f (by simp) hcreate hnames.symm (by simp [Volume.exists, hsrc])
    rw [Volume.node_set_of_ne hne]
    exact h.rest g hg fun k hk => hnot k (List.mem_append_left _ hk)

theorem triple_io {α : Type} {pre : Volume → Prop} {x : EStateM IoError Volume α}
    {post : α → Volume → Prop} {exit : Volume → Prop}
    (h : Triple pre x post fun _ => exit) : Triple pre (io x) post fun _ => exit :=
  triple_adaptExcept h

theorem backupFile_copies (horder : Orderly files) (hapart : Apart sourceDir bp)
    (hdone : ∀ g ∈ done, g ∈ files) (hf : f ∈ files) :
    Triple (Backing sourceDir bp files done tree) (backupFile sourceDir bp faults f)
      (fun _ => Backing sourceDir bp files (done ++ [f]) tree) (fun _ => Same bp tree) := by
  have hsource : sourceDir <+: place sourceDir f.path :=
    place_eq (horder.plain f hf) sourceDir ▸ List.prefix_append _ _
  have hread : ∀ v, Backing sourceDir bp files done tree v →
      v.node (place sourceDir f.path) = tree.node (place sourceDir f.path) :=
    fun v hv => hv.same.source hapart hsource
  unfold backupFile
  by_cases hcreate : f.changeType = .create
  · rw [if_pos hcreate]
    exact triple_pure fun v hv => hv.skip fun h => absurd hcreate h
  · rw [if_neg hcreate]
    apply triple_read_bind (a := tree.exists (place sourceDir f.path))
      (fun v hv => by rw [Volume.exists, Volume.exists, hread v hv])
    by_cases hexists : tree.exists (place sourceDir f.path)
    · rw [if_pos hexists]
      apply triple_bind (M := fun _ => Backing sourceDir bp files done tree)
      · apply triple_io
        apply (triple_createDirAll (I := Backing sourceDir bp files done tree)
          fun v l hdir hup hv hl hnone => hv.makeDir horder hf hl hnone).weaken (fun _ h => h)
        · exact fun _ _ hv => hv
        · exact fun _ _ hv => hv.same
      · intro _
        apply triple_io
        apply triple_bind (triple_readFile fun v _ hv _ => hv.same)
        intro bytes
        apply triple_writeFile
        · exact fun v hdir hup hv =>
            hv.1.copy horder hdone hf hcreate (hread v hv.1 ▸ hv.2)
        · exact fun v left hdir hup hv _ =>
            hv.1.same.set (Or.inl (place_eq (horder.plain f hf) bp ▸ List.prefix_append _ _))
        · exact fun v _ hv _ => hv.1.same
    · rw [if_neg hexists]
      exact triple_pure fun v hv => hv.skip fun _ => hexists

/-- A backup of the files of a plan as they stand in a tree. -/
structure Backup (parseMetadata : Str → Option BackupMetadata) (sourceDir bp : Loc)
    (files : List FileChange) (tree v : Volume) : Prop where
  metadata : ∃ text metadata, v.node (bp ++ [metadataName]) = some (.file (encode text)) ∧
    parseMetadata text = some metadata ∧ metadata.files = files
  copies : ∀ f ∈ files, ∀ bytes, tree.node (place sourceDir f.path) = some (.file bytes) →
    v.node (place bp f.path) = some (.file bytes)
  nothing : ∀ f ∈ files, tree.content (place sourceDir f.path) = none →
    v.node (place bp f.path) = none

variable {printMetadata : BackupMetadata → Option Str}
  {parseMetadata : Str → Option BackupMetadata} {backupDir : Loc} {second : Nat}

theorem Backing.complete (horder : Orderly files) (hcovered : Covered sourceDir files tree)
    (hfresh : Fresh sourceDir bp files tree) (h : Backing sourceDir bp files files tree v)
    {text : Str} {metadata : BackupMetadata}
    (hparse : parseMetadata text = some metadata) (hfiles : metadata.files = files)
    {hdir : v.node (bp ++ [metadataName]) ≠ some .dir}
    {hup : v.node (bp ++ [metadataName]).dropLast = some .dir} :
    Backup parseMetadata sourceDir bp files tree
      (v.set (bp ++ [metadataName]) (some (.file (encode text))) hdir hup) := by
  have hother : ∀ f ∈ files, place bp f.path ≠ bp ++ [metadataName] := by
    intro f hf hplace
    rw [place_eq (horder.plain f hf)] at hplace
    exact horder.metadata f hf (List.append_cancel_left hplace)
  constructor
  · exact ⟨text, metadata, Volume.node_set_self, hparse, hfiles⟩
  · intro f hf bytes hnode
    rw [Volume.node_set_of_ne (hother f hf)]
    have hnamed : ∃ g ∈ files, g.changeType ≠ .create ∧ names g.path = names f.path := by
      by_cases hcreate : f.changeType = .create
      · apply hcovered f hf hcreate
        simp [Volume.isFile, Volume.content_eq_some.mpr hnode]
      · exact ⟨f, hf, hcreate, rfl⟩
    obtain ⟨g, hg, hgcreate, hnames⟩ := hnamed
    rw [← place_congr horder hf hg hnames] at hnode ⊢
    obtain ⟨bytes', hsrc, hdst⟩ := h.copied g hg hgcreate (by simp [Volume.exists, hnode])
    rw [hsrc] at hnode
    cases hnode
    exact hdst
  · intro f hf hnone
    have hnot : ∀ g ∈ files, g.changeType ≠ .create → names g.path = names f.path →
        ¬ tree.exists (place sourceDir g.path) := by
      intro g hg hgcreate hnames hexists
      obtain ⟨bytes, hsrc, -⟩ := h.copied g hg hgcreate hexists
      rw [place_congr horder hf hg hnames, ← Volume.content_eq_some, hnone] at hsrc
      cases hsrc
    rw [Volume.node_set_of_ne (hother f hf), h.rest f hf hnot]
    exact hfresh f hf hnot

theorem createBackup_backs (createdAt : Nat) (faults : Nat → Faults)
    (hround : ∀ metadata text, printMetadata metadata = some text →
      parseMetadata text = some metadata)
    (horder : Orderly files) (hapart : Apart sourceDir backupDir)
    (hcovered : Covered sourceDir files tree)
    (hfresh : Fresh sourceDir (backupDir ++ [backupIdOf second]) files tree) :
    Triple (fun v => v = tree)
      (createBackup printMetadata backupDir sourceDir second createdAt faults files)
      (fun id v => id = backupIdOf second ∧ Same (backupDir ++ [backupIdOf second]) tree v ∧
        Backup parseMetadata sourceDir (backupDir ++ [backupIdOf second]) files tree v)
      (fun _ => Same (backupDir ++ [backupIdOf second]) tree) := by
  set bp := backupDir ++ [backupIdOf second]
  have hbp : Apart sourceDir bp := hapart.below _
  have hstart : Backing sourceDir bp files [] tree tree :=
    ⟨fun _ _ _ => rfl, by simp, fun _ _ _ => rfl⟩
  unfold createBackup
  apply triple_bind (M := fun _ => Backing sourceDir bp files [] tree)
  · apply triple_io
    apply (triple_createDirAll (I := Backing sourceDir bp files [] tree) ?_).weaken
    · rintro v rfl
      exact hstart
    · exact fun _ _ hv => hv
    · exact fun _ _ hv => hv.same
    · intro v l hdir hup hv hl hnone
      refine ⟨hv.same.set (Or.inr hl), by simp, fun f hf hnot => ?_⟩
      rw [Volume.node_set_of_ne]
      · exact hv.rest f hf hnot
      · intro hplace
        rw [place_eq (horder.plain f hf)] at hplace
        have hlength : l.length ≤ bp.length := hl.length_le
        have hpos := List.length_pos_of_ne_nil (names_ne_nil (horder.plain f hf))
        rw [← hplace, List.length_append] at hlength
        omega
  · intro _
    apply triple_bind (M := fun _ => Backing sourceDir bp files files tree)
    · apply triple_forM_zipIdx (I := fun done => Backing sourceDir bp files done tree)
      intro done f n hdone
      exact backupFile_copies horder hbp
        (fun g hg => hdone.subset (List.mem_append_left _ hg)) (hdone.subset (by simp))
    · intro _
      cases hprint : printMetadata ⟨backupIdOf second, createdAt, files⟩ with
      | none => exact triple_throw fun v hv => hv.same
      | some text =>
        apply triple_bind (M := fun _ v => Same bp tree v ∧
          Backup parseMetadata sourceDir bp files tree v)
        · apply triple_io
          apply triple_writeFile
          · exact fun v hdir hup hv =>
              ⟨hv.same.set (Or.inl (List.prefix_append _ _)),
                hv.complete horder hcovered hfresh (hround _ _ hprint) rfl⟩
          · exact fun v left hdir hup hv _ => hv.same.set (Or.inl (List.prefix_append _ _))
          · exact fun v _ hv _ => hv.same
        · exact fun _ => triple_pure fun v hv => ⟨rfl, hv⟩

end BackingUp

section Changing

variable {sourceDir backupDir : Loc} {files : List FileChange} {f : FileChange} {faults : Faults}
  {debugStr : Str → Str} {tree kept v : Volume} {l : Loc}

/-- How a tree can come to look when the changes of a plan are made and undone. -/
structure Within (sourceDir : Loc) (files : List FileChange) (tree v : Volume) : Prop where
  dirs : ∀ loc, sourceDir <+: loc → tree.node loc = some .dir → v.node loc = some .dir
  made : ∀ loc, sourceDir <+: loc → v.node loc = some .dir → tree.node loc = some .dir ∨
    ∃ f ∈ files, f.changeType = .create ∧ loc <+: parentPlace sourceDir f.path
  changed : ∀ loc, sourceDir <+: loc → v.content loc ≠ tree.content loc →
    ∃ f ∈ files, place sourceDir f.path = loc
  born : ∀ loc, sourceDir <+: loc → tree.content loc = none → v.content loc ≠ none →
    ∃ f ∈ files, f.changeType = .create ∧ place sourceDir f.path = loc

/-- A tree in which the changes of a plan are made and undone, while the backups are kept. -/
structure Inside (sourceDir backupDir : Loc) (files : List FileChange) (tree kept v : Volume) :
    Prop where
  within : Within sourceDir files tree v
  aside : ∀ loc, backupDir <+: loc → v.node loc = kept.node loc

theorem Within.makeDir (h : Within sourceDir files tree v) (hf : f ∈ files)
    (hcreate : f.changeType = .create) {hdir : v.node l ≠ some .dir}
    {hup : v.node l.dropLast = some .dir} (hl : l <+: parentPlace sourceDir f.path)
    (hnone : v.node l = none) : Within sourceDir files tree (v.set l (some .dir) hdir hup) where
  dirs loc hloc hstands := by
    by_cases heq : loc = l
    · rw [heq, Volume.node_set_self]
    · rw [Volume.node_set_of_ne heq]
      exact h.dirs loc hloc hstands
  made loc hloc hstands := by
    by_cases heq : loc = l
    · exact Or.inr ⟨f, hf, hcreate, heq ▸ hl⟩
    · rw [Volume.node_set_of_ne heq] at hstands
      exact h.made loc hloc hstands
  changed loc hloc hne := h.changed loc hloc (by rwa [Volume.content_set_dir hnone] at hne)
  born loc hloc hnew hne := h.born loc hloc hnew (by rwa [Volume.content_set_dir hnone] at hne)

theorem Within.put (h : Within sourceDir files tree v) (hf : f ∈ files) {n : Option Node}
    {hdir : v.node (place sourceDir f.path) ≠ some .dir}
    {hup : v.node (place sourceDir f.path).dropLast = some .dir} (hn : n ≠ some .dir)
    (hborn : n = none ∨ f.changeType = .create ∨ v.content (place sourceDir f.path) ≠ none ∨
      tree.content (place sourceDir f.path) ≠ none) :
    Within sourceDir files tree (v.set (place sourceDir f.path) n hdir hup) where
  dirs loc hloc hstands := by
    rw [Volume.node_set_of_ne]
    · exact h.dirs loc hloc hstands
    · rintro rfl
      exact hdir (h.dirs _ hloc hstands)
  made loc hloc hstands := by
    by_cases heq : loc = place sourceDir f.path
    · rw [heq, Volume.node_set_self] at hstands
      exact absurd hstands hn
    · rw [Volume.node_set_of_ne heq] at hstands
      exact h.made loc hloc hstands
  changed loc hloc hne := by
    by_cases heq : loc = place sourceDir f.path
    · exact ⟨f, hf, heq.symm⟩
    · rw [Volume.content_set_of_ne heq] at hne
      exact h.changed loc hloc hne
  born loc hloc hnew hne := by
    by_cases heq : loc = place sourceDir f.path
    · subst heq
      obtain rfl | hcreate | hold | htree := hborn
      · simp [Volume.content] at hne
      · exact ⟨f, hf, hcreate, rfl⟩
      · exact h.born _ hloc hnew hold
      · exact absurd hnew htree
    · rw [Volume.content_set_of_ne heq] at hne
      exact h.born loc hloc hnew hne

theorem aside_set (hapart : Apart sourceDir backupDir)
    (h : ∀ loc, backupDir <+: loc → v.node loc = kept.node loc) {n : Option Node}
    {hdir : v.node l ≠ some .dir} {hup : v.node l.dropLast = some .dir} {below : Loc}
    (hbelow : sourceDir <+: below) (hl : l <+: below) :
    ∀ loc, backupDir <+: loc → (v.set l n hdir hup).node loc = kept.node loc := by
  intro loc hloc
  rw [Volume.node_set_of_ne]
  · exact h loc hloc
  · rintro rfl
    exact hapart.elim hbelow (hloc.trans hl)

variable (hplain : ∀ f ∈ files, plain f.path) (hapart : Apart sourceDir backupDir)

include hplain in
theorem source_place (hf : f ∈ files) : sourceDir <+: place sourceDir f.path :=
  place_eq (hplain f hf) sourceDir ▸ List.prefix_append _ _

include hplain hapart in
theorem Inside.put (h : Inside sourceDir backupDir files tree kept v) (hf : f ∈ files)
    {n : Option Node} {hdir : v.node (place sourceDir f.path) ≠ some .dir}
    {hup : v.node (place sourceDir f.path).dropLast = some .dir} (hn : n ≠ some .dir)
    (hborn : n = none ∨ f.changeType = .create ∨ v.content (place sourceDir f.path) ≠ none ∨
      tree.content (place sourceDir f.path) ≠ none) :
    Inside sourceDir backupDir files tree kept
      (v.set (place sourceDir f.path) n hdir hup) where
  within := h.within.put hf hn hborn
  aside := aside_set hapart h.aside (source_place hplain hf) List.prefix_rfl

include hplain hapart in
theorem Inside.makeDir (h : Inside sourceDir backupDir files tree kept v) (hf : f ∈ files)
    (hcreate : f.changeType = .create) {hdir : v.node l ≠ some .dir}
    {hup : v.node l.dropLast = some .dir} (hl : l <+: parentPlace sourceDir f.path)
    (hnone : v.node l = none) :
    Inside sourceDir backupDir files tree kept (v.set l (some .dir) hdir hup) where
  within := h.within.makeDir hf hcreate hl hnone
  aside := aside_set hapart h.aside
    (parentPlace_eq (hplain f hf) sourceDir ▸ List.prefix_append _ _) hl

include hplain in
/-- What is no directory now was none before. -/
theorem Inside.not_dir (h : Inside sourceDir backupDir files tree kept v) (hf : f ∈ files)
    (hdir : v.node (place sourceDir f.path) ≠ some .dir) :
    tree.node (place sourceDir f.path) ≠ some .dir :=
  fun hstands => hdir (h.within.dirs _ (source_place hplain hf) hstands)

include hplain hapart in
theorem createFile_inside (hf : f ∈ files) (hcreate : f.changeType = .create) :
    Triple (Inside sourceDir backupDir files tree kept) (createFile sourceDir faults f)
      (fun _ v => Inside sourceDir backupDir files tree kept v ∧
        tree.node (place sourceDir f.path) ≠ some .dir)
      (fun _ => Inside sourceDir backupDir files tree kept) := by
  unfold createFile
  apply triple_bind (M := fun _ => Inside sourceDir backupDir files tree kept)
  · apply triple_io
    exact triple_createDirAll fun v l hdir hup hv hl hnone =>
      hv.makeDir hplain hapart hf hcreate hl hnone
  · intro _
    apply triple_io
    apply triple_writeFile
    · exact fun v hdir hup hv =>
        ⟨hv.put hplain hapart hf nofun (Or.inr (Or.inl hcreate)), hv.not_dir hplain hf hdir⟩
    · exact fun v left hdir hup hv _ =>
        hv.put hplain hapart hf nofun (Or.inr (Or.inl hcreate))
    · exact fun v _ hv _ => hv

include hplain hapart in
theorem modifyFile_inside (hf : f ∈ files) :
    Triple (Inside sourceDir backupDir files tree kept) (modifyFile debugStr sourceDir faults f)
      (fun _ v => Inside sourceDir backupDir files tree kept v ∧
        tree.node (place sourceDir f.path) ≠ some .dir)
      (fun _ => Inside sourceDir backupDir files tree kept) := by
  unfold modifyFile
  apply triple_bind (M := fun _ => Inside sourceDir backupDir files tree kept)
    (triple_read fun _ hv => hv)
  intro found
  by_cases hfound : found = true
  · rw [if_pos hfound]
    apply triple_bind (triple_io (triple_readToString fun _ _ hv _ => hv))
    intro text
    apply triple_io
    have hold : ∀ {v : Volume}, (∃ bytes, v.node (place sourceDir f.path) = some (.file bytes) ∧
        fromUtf8 bytes = some text) → v.content (place sourceDir f.path) ≠ none := by
      rintro v ⟨bytes, hnode, -⟩
      simp [Volume.content_eq_some.mpr hnode]
    apply triple_writeFile
    · exact fun v hdir hup hv =>
        ⟨hv.1.put hplain hapart hf nofun (Or.inr (Or.inr (Or.inl (hold hv.2)))),
          hv.1.not_dir hplain hf hdir⟩
    · exact fun v left hdir hup hv _ =>
        hv.1.put hplain hapart hf nofun (Or.inr (Or.inr (Or.inl (hold hv.2))))
    · exact fun v _ hv _ => hv.1
  · rw [if_neg hfound]
    exact triple_throw fun _ hv => hv

include hplain hapart in
theorem deleteFile_inside (hf : f ∈ files) :
    Triple (Inside sourceDir backupDir files tree kept) (deleteFile sourceDir faults f)
      (fun _ v => Inside sourceDir backupDir files tree kept v ∧
        tree.node (place sourceDir f.path) ≠ some .dir)
      (fun _ => Inside sourceDir backupDir files tree kept) := by
  unfold deleteFile
  apply triple_bind triple_read_known
  intro found
  by_cases hfound : found = true
  · rw [if_pos hfound]
    apply triple_io
    apply triple_removeFile
    · exact fun v hdir hup hv =>
        ⟨hv.1.put hplain hapart hf nofun (Or.inl rfl), hv.1.not_dir hplain hf hdir⟩
    · exact fun v _ hv _ => hv.1
  · rw [if_neg hfound]
    apply triple_pure
    rintro v ⟨hv, hmissing⟩
    refine ⟨hv, hv.not_dir hplain hf fun hstands => hfound ?_⟩
    rw [← hmissing, Volume.exists, hstands]
    rfl

include hplain hapart in
theorem applyChange_inside (hf : f ∈ files) :
    Triple (Inside sourceDir backupDir files tree kept)
      (applyChange debugStr sourceDir faults f)
      (fun _ v => Inside sourceDir backupDir files tree kept v ∧
        tree.node (place sourceDir f.path) ≠ some .dir)
      (fun _ => Inside sourceDir backupDir files tree kept) := by
  unfold applyChange
  cases htype : f.changeType with
  | create => exact createFile_inside hplain hapart hf htype
  | modify => exact modifyFile_inside hplain hapart hf
  | delete => exact deleteFile_inside hplain hapart hf

include hapart in
theorem applyPlan_inside {plan : ModifyPlan} (hplain : ∀ f ∈ plan.files, plain f.path)
    {faults : Nat → Faults} :
    Triple (Inside sourceDir backupDir plan.files tree kept)
      (applyPlan debugStr sourceDir faults plan)
      (fun _ v => Inside sourceDir backupDir plan.files tree kept v ∧
        ∀ f ∈ plan.files, tree.node (place sourceDir f.path) ≠ some .dir)
      (fun _ => Inside sourceDir backupDir plan.files tree kept) := by
  let I : List FileChange → Volume → Prop := fun done v =>
    Inside sourceDir backupDir plan.files tree kept v ∧
      ∀ f ∈ done, tree.node (place sourceDir f.path) ≠ some .dir
  have hloop : Triple (I []) (applyPlan debugStr sourceDir faults plan) (fun _ => I plan.files)
      (fun _ => Inside sourceDir backupDir plan.files tree kept) := by
    apply triple_forM_zipIdx
    intro done f n hdone
    apply triple_of_fact
    intro hall
    apply (applyChange_inside hplain hapart (hdone.subset (by simp))).weaken (fun _ hv => hv)
    · rintro _ v ⟨hv, hf⟩
      exact ⟨hv, by simpa [or_imp, forall_and] using ⟨hall, hf⟩⟩
    · exact fun _ _ hv => hv
  exact hloop.weaken (fun v hv => ⟨hv, by simp⟩) (fun _ _ hv => hv) (fun _ _ hv => hv)

/-- The files of a tree are as they were. -/
def SameFiles (tree v : Volume) : Prop := ∀ loc, v.content loc = tree.content loc

theorem createDirAll_files : Triple (SameFiles tree) (createDirAll faults l)
    (fun _ => SameFiles tree) (fun _ => SameFiles tree) := by
  apply triple_createDirAll
  intro v l hdir hup hv _ hnone loc
  rw [Volume.content_set_dir hnone, hv loc]

theorem writeFile_files (htraces : leavesTraces faults = false) {bytes : List UInt8} :
    Triple (SameFiles tree) (writeFile faults l bytes) (fun _ _ => True)
      (fun _ => SameFiles tree) := by
  apply triple_writeFile
  · exact fun _ _ _ _ => trivial
  · intro v left hdir hup _ hwrite
    simp [leavesTraces, hwrite] at htraces
  · exact fun _ _ hv _ => hv

/-- A change that fails and leaves no trace leaves the files as they were. -/
theorem applyChange_files (htraces : leavesTraces faults = false) :
    Triple (SameFiles tree) (applyChange debugStr sourceDir faults f) (fun _ _ => True)
      (fun _ => SameFiles tree) := by
  unfold applyChange
  cases htype : f.changeType with
  | create => exact triple_bind (triple_io createDirAll_files) fun _ =>
      triple_io (writeFile_files htraces)
  | modify =>
    apply triple_bind (M := fun _ => SameFiles tree) (triple_read fun _ hv => hv)
    intro found
    by_cases hfound : found = true
    · rw [if_pos hfound]
      apply triple_bind (triple_io (triple_readToString fun _ _ hv _ => hv))
      intro text
      exact triple_io ((writeFile_files htraces).weaken (fun _ hv => hv.1) (fun _ _ hv => hv)
        (fun _ _ hv => hv))
    · rw [if_neg hfound]
      exact triple_throw fun _ hv => hv
  | delete =>
    apply triple_bind (M := fun _ => SameFiles tree) (triple_read fun _ hv => hv)
    intro found
    by_cases hfound : found = true
    · rw [if_pos hfound]
      exact triple_io (triple_removeFile (fun _ _ _ _ => trivial) fun _ _ hv _ => hv)
    · rw [if_neg hfound]
      exact triple_pure fun _ _ => trivial

/-- A change that alters nothing is to delete a file that is not there. -/
theorem applyChange_of_not_alters (h : alters sourceDir f tree = false) :
    applyChange debugStr sourceDir faults f tree = .ok () tree := by
  simp only [alters, Bool.or_eq_false_iff, decide_eq_false_iff_not, not_not] at h
  have hread : (read (·.exists (place sourceDir f.path)) : EStateM ModifyError Volume Bool) tree =
      .ok false tree := by
    show EStateM.Result.ok (tree.exists (place sourceDir f.path)) tree = .ok false tree
    rw [h.2]
  rw [applyChange, h.1]
  exact bind_of_ok hread

theorem changes_of_altered {faults : Nat → Faults} {changes : List (FileChange × Nat)}
    {e : ModifyError} (h : failsLate sourceDir debugStr faults true tree changes = false) :
    (changes.forM fun p => applyChange debugStr sourceDir (faults p.2) p.1) tree ≠ .error e v := by
  induction changes generalizing tree with
  | nil => nofun
  | cons p changes ih =>
    rw [forM_cons]
    rw [failsLate] at h
    cases hchange : applyChange debugStr sourceDir (faults p.2) p.1 tree with
    | error e' tree' => simp [hchange] at h
    | ok u tree' =>
      rw [bind_of_ok hchange]
      exact ih (by simpa [hchange] using h)

/-- A plan that does not fail late leaves the files as they were, if it fails. -/
theorem changes_files {faults : Nat → Faults} {changes : List (FileChange × Nat)} {e : ModifyError}
    (h : failsLate sourceDir debugStr faults false tree changes = false)
    (herror : (changes.forM fun p => applyChange debugStr sourceDir (faults p.2) p.1) tree =
      .error e v) : SameFiles tree v := by
  induction changes generalizing tree with
  | nil => cases herror
  | cons p changes ih =>
    rw [forM_cons] at herror
    rw [failsLate] at h
    cases hchange : applyChange debugStr sourceDir (faults p.2) p.1 tree with
    | error e' tree' =>
      rw [bind_of_error hchange] at herror
      cases herror
      have htraces : leavesTraces (faults p.2) = false := by simpa [hchange] using h
      exact (applyChange_files htraces).of_error (fun _ => rfl) hchange
    | ok u tree' =>
      rw [bind_of_ok hchange] at herror
      cases halters : alters sourceDir p.1 tree with
      | true =>
        rw [hchange, halters] at h
        exact absurd herror (changes_of_altered h)
      | false =>
        rw [hchange, halters] at h
        rw [applyChange_of_not_alters halters] at hchange
        cases hchange
        exact ih h herror

end Changing

section Restoring

variable {sourceDir backupDir bp : Loc} {files done : List FileChange} {f : FileChange}
  {parseMetadata : Str → Option BackupMetadata} {tree kept v : Volume} {backupId : Str}

/-- What holds whenever a backup can be gone back to. -/
structure Undoable (parseMetadata : Str → Option BackupMetadata) (sourceDir backupDir bp : Loc)
    (files : List FileChange) (tree kept : Volume) : Prop where
  orderly : Orderly files
  apart : Apart sourceDir backupDir
  below : backupDir <+: bp
  backup : Backup parseMetadata sourceDir bp files tree kept
  noDirs : ∀ f ∈ files, tree.node (place sourceDir f.path) ≠ some .dir

/-- Part of the files have been restored. -/
structure Restoring (sourceDir backupDir : Loc) (files done : List FileChange)
    (tree kept v : Volume) : Prop where
  inside : Inside sourceDir backupDir files tree kept v
  restored : ∀ f ∈ done, tree.content (place sourceDir f.path) ≠ none ∨ f.changeType = .create →
    v.content (place sourceDir f.path) = tree.content (place sourceDir f.path)

theorem Restoring.put (hundo : Undoable parseMetadata sourceDir backupDir bp files tree kept)
    (hf : f ∈ files) (h : Restoring sourceDir backupDir files done tree kept v) {n : Option Node}
    {hdir : v.node (place sourceDir f.path) ≠ some .dir}
    {hup : v.node (place sourceDir f.path).dropLast = some .dir} (hn : n ≠ some .dir)
    (hborn : n = none ∨ tree.content (place sourceDir f.path) ≠ none)
    (hcontent : n = tree.node (place sourceDir f.path)) :
    Restoring sourceDir backupDir files (done ++ [f]) tree kept
      (v.set (place sourceDir f.path) n hdir hup) where
  inside := h.inside.put hundo.orderly.plain hundo.apart hf hn
    (hborn.imp_right fun htree => Or.inr (Or.inr htree))
  restored g hg hback := by
    by_cases heq : place sourceDir g.path = place sourceDir f.path
    · rw [heq]
      exact Volume.content_congr (by rw [Volume.node_set_self, hcontent])
    · rw [Volume.content_set_of_ne heq]
      obtain hg | hlast := List.mem_append.mp hg
      · exact h.restored g hg hback
      · exact absurd (List.mem_singleton.mp hlast ▸ rfl) heq

/-- Where a file of the plan goes there is no directory, now or before. -/
theorem Inside.free (hundo : Undoable parseMetadata sourceDir backupDir bp files tree kept)
    (hf : f ∈ files) (h : Inside sourceDir backupDir files tree kept v) :
    v.node (place sourceDir f.path) ≠ some .dir := by
  intro hdir
  obtain hbefore | ⟨g, hg, -, hway⟩ :=
    h.within.made _ (source_place hundo.orderly.plain hf) hdir
  · exact hundo.noDirs f hf hbefore
  · exact not_place_prefix hundo.orderly hg hf hway

theorem Restoring.backup (hundo : Undoable parseMetadata sourceDir backupDir bp files tree kept)
    (hf : f ∈ files) (h : Restoring sourceDir backupDir files done tree kept v) :
    v.node (place bp f.path) = kept.node (place bp f.path) :=
  h.inside.aside _ (hundo.below.trans
    (place_eq (hundo.orderly.plain f hf) bp ▸ List.prefix_append _ _))

/-- A file that was there is copied back. -/
theorem restoreFile_copies (hundo : Undoable parseMetadata sourceDir backupDir bp files tree kept)
    (hf : f ∈ files) (faults : Faults) {bytes : List UInt8}
    (hfile : tree.content (place sourceDir f.path) = some bytes) :
    Triple (Restoring sourceDir backupDir files done tree kept) (restoreFile sourceDir bp faults f)
      (fun _ => Restoring sourceDir backupDir files (done ++ [f]) tree kept)
      (fun _ v => Inside sourceDir backupDir files tree kept v ∧ faults ≠ .free) := by
  have hplain := hundo.orderly.plain f hf
  have hnode := Volume.content_eq_some.mp hfile
  have hcopy := hundo.backup.copies f hf bytes hnode
  have hparent : ∀ v, Restoring sourceDir backupDir files done tree kept v →
      v.node (parentPlace sourceDir f.path) = some .dir := by
    intro v hv
    apply hv.inside.within.dirs
    · rw [parentPlace_eq hplain]
      exact List.prefix_append _ _
    · rw [← dropLast_place hplain]
      exact Volume.isFile_parent tree (by simp [Volume.isFile, hfile])
  unfold restoreFile
  apply triple_read_bind (a := true)
    (fun v hv => by rw [Volume.exists, hv.backup hundo hf, hcopy, Option.isSome_some])
  rw [if_pos rfl]
  apply triple_bind (M := fun _ => Restoring sourceDir backupDir files done tree kept)
  · apply triple_io
    exact (triple_createDirAll_of_dir hparent).weaken (fun _ h => h) (fun _ _ h => h)
      (fun _ _ h => h.elim)
  · intro _
    apply triple_io
    have hread : Triple (Restoring sourceDir backupDir files done tree kept)
        (readFile faults (place bp f.path))
        (fun bytes' v => Restoring sourceDir backupDir files done tree kept v ∧ bytes' = bytes)
        (fun _ v => Inside sourceDir backupDir files tree kept v ∧ faults ≠ .free) := by
      apply (triple_readFile ?_).weaken (fun _ h => h) ?_ (fun _ _ h => h)
      · intro v _ hv hread
        refine ⟨hv.inside, ?_⟩
        rintro rfl
        exact hread rfl bytes (hv.backup hundo hf ▸ hcopy)
      · rintro bytes' v ⟨hv, hread⟩
        rw [hv.backup hundo hf, hcopy] at hread
        cases hread
        exact ⟨hv, rfl⟩
    apply triple_bind_known hread
    apply triple_writeFile
    · exact fun v hdir hup hv =>
        hv.put hundo hf (by simp) (Or.inr (by simp [hfile])) hnode.symm
    · intro v left hdir hup hv hwrite
      refine ⟨hv.inside.put hundo.orderly.plain hundo.apart hf (by simp)
        (Or.inr (Or.inr (Or.inr (by simp [hfile])))), ?_⟩
      rintro rfl
      cases hwrite
    · intro v _ hv hwrite
      refine ⟨hv.inside, ?_⟩
      rintro rfl
      obtain hdir | hup := hwrite rfl
      · exact hv.inside.free hundo hf hdir
      · exact hup (dropLast_place hplain sourceDir ▸ hparent v hv)

theorem Restoring.leave (h : Restoring sourceDir backupDir files done tree kept v)
    (hback : tree.content (place sourceDir f.path) ≠ none ∨ f.changeType = .create →
      v.content (place sourceDir f.path) = tree.content (place sourceDir f.path)) :
    Restoring sourceDir backupDir files (done ++ [f]) tree kept v where
  inside := h.inside
  restored g hg hgback := by
    obtain hg | hlast := List.mem_append.mp hg
    · exact h.restored g hg hgback
    · obtain rfl := List.mem_singleton.mp hlast
      exact hback hgback

/-- A file that was not there is removed, if it was to be created. -/
theorem restoreFile_removes (hundo : Undoable parseMetadata sourceDir backupDir bp files tree kept)
    (hf : f ∈ files) (faults : Faults) (hfile : tree.content (place sourceDir f.path) = none) :
    Triple (Restoring sourceDir backupDir files done tree kept) (restoreFile sourceDir bp faults f)
      (fun _ => Restoring sourceDir backupDir files (done ++ [f]) tree kept)
      (fun _ v => Inside sourceDir backupDir files tree kept v ∧ faults ≠ .free) := by
  have hnode : tree.node (place sourceDir f.path) = none := by
    cases hstands : tree.node (place sourceDir f.path) with
    | none => rfl
    | some n =>
      cases n with
      | dir => exact absurd hstands (hundo.noDirs f hf)
      | file bytes =>
        rw [Volume.content_eq_some.mpr hstands] at hfile
        cases hfile
  have hnothing := hundo.backup.nothing f hf hfile
  unfold restoreFile
  apply triple_read_bind (a := false)
    (fun v hv => by rw [Volume.exists, hv.backup hundo hf, hnothing, Option.isSome_none])
  rw [if_neg (by simp)]
  by_cases hcreate : f.changeType = .create
  · rw [if_pos hcreate]
    apply triple_bind triple_read_known
    intro found
    by_cases hfound : found = true
    · rw [if_pos hfound]
      apply triple_io
      apply triple_removeFile
      · exact fun v hdir hup hv => hv.1.put hundo hf nofun (Or.inl rfl) hnode.symm
      · rintro v _ ⟨hv, hexists⟩ hremove
        refine ⟨hv.inside, ?_⟩
        rintro rfl
        rw [hfound, Volume.exists, Option.isSome_iff_exists] at hexists
        obtain ⟨n, hn⟩ := hexists
        cases n with
        | dir => exact hv.inside.free hundo hf hn
        | file bytes => exact hremove rfl bytes hn
    · rw [if_neg hfound]
      apply triple_pure
      rintro v ⟨hv, hmissing⟩
      refine hv.leave fun _ => ?_
      have hnone : v.node (place sourceDir f.path) = none := by
        simpa [← hmissing, Volume.exists] using hfound
      rw [hfile, Volume.content, hnone]
  · rw [if_neg hcreate]
    exact triple_pure fun v hv => hv.leave fun hback => absurd hback (by simp [hfile, hcreate])

theorem restoreFile_restores (hundo : Undoable parseMetadata sourceDir backupDir bp files tree kept)
    (hf : f ∈ files) (faults : Faults) :
    Triple (Restoring sourceDir backupDir files done tree kept) (restoreFile sourceDir bp faults f)
      (fun _ => Restoring sourceDir backupDir files (done ++ [f]) tree kept)
      (fun _ v => Inside sourceDir backupDir files tree kept v ∧ faults ≠ .free) := by
  cases hfile : tree.content (place sourceDir f.path) with
  | some bytes => exact restoreFile_copies hundo hf faults hfile
  | none => exact restoreFile_removes hundo hf faults hfile

/-- The files below a directory are as they were. -/
def Restored (sourceDir : Loc) (tree v : Volume) : Prop :=
  ∀ loc, sourceDir <+: loc → v.content loc = tree.content loc

theorem Restoring.all (h : Restoring sourceDir backupDir files files tree kept v) :
    Restored sourceDir tree v := by
  intro loc hloc
  by_contra hne
  cases hfile : tree.content loc with
  | some bytes =>
    obtain ⟨f, hf, rfl⟩ := h.inside.within.changed loc hloc hne
    exact hne (h.restored f hf (Or.inl (by simp [hfile])))
  | none =>
    obtain ⟨f, hf, hcreate, rfl⟩ :=
      h.inside.within.born loc hloc hfile (by rwa [hfile] at hne)
    exact hne (h.restored f hf (Or.inr hcreate))

theorem restoreBackup_restores {files : List FileChange} {faults : Nat → Faults}
    (hundo : Undoable parseMetadata sourceDir backupDir (backupDir ++ [backupId]) files tree kept) :
    Triple (Inside sourceDir backupDir files tree kept)
      (restoreBackup parseMetadata backupDir sourceDir faults backupId)
      (fun _ v => Inside sourceDir backupDir files tree kept v ∧ Restored sourceDir tree v)
      (fun _ v => Inside sourceDir backupDir files tree kept v ∧ ∃ n, faults n ≠ .free) := by
  obtain ⟨text, metadata, hnode, hparse, hfiles⟩ := hundo.backup.metadata
  have hmetadata : ∀ v, Inside sourceDir backupDir files tree kept v →
      v.node (backupDir ++ [backupId] ++ [metadataName]) = some (.file (encode text)) := by
    intro v hv
    rw [hv.aside _ (by rw [List.append_assoc]; exact List.prefix_append _ _), hnode]
  unfold restoreBackup
  apply triple_read_bind (a := true)
    (fun v hv => by rw [Volume.exists, v.above _ metadataName (by rw [hmetadata v hv]; nofun)]; rfl)
  rw [if_pos rfl]
  have hread : Triple (Inside sourceDir backupDir files tree kept)
      (io (readToString (faults 0) (backupDir ++ [backupId] ++ [metadataName])))
      (fun text' v => Inside sourceDir backupDir files tree kept v ∧ text' = text)
      (fun _ v => Inside sourceDir backupDir files tree kept v ∧ ∃ n, faults n ≠ .free) := by
    apply triple_io
    apply (triple_readToString ?_).weaken (fun _ h => h) ?_ (fun _ _ h => h)
    · intro v _ hv hread
      refine ⟨hv, 0, fun hfree => ?_⟩
      exact hread (by rw [hfree]; rfl) text (hmetadata v hv)
    · rintro text' v ⟨hv, bytes, hread, hutf8⟩
      rw [hmetadata v hv] at hread
      cases hread
      rw [fromUtf8_encode] at hutf8
      exact ⟨hv, (Option.some.inj hutf8).symm⟩
  apply triple_bind_known hread
  rw [hparse]
  subst hfiles
  have hloop : Triple (Restoring sourceDir backupDir metadata.files [] tree kept)
      ((metadata.files.zipIdx 1).forM fun p =>
        restoreFile sourceDir (backupDir ++ [backupId]) (faults p.2) p.1)
      (fun _ => Restoring sourceDir backupDir metadata.files metadata.files tree kept)
      (fun _ v => Inside sourceDir backupDir metadata.files tree kept v ∧
        ∃ n, faults n ≠ .free) := by
    apply triple_forM_zipIdx (I := fun done =>
      Restoring sourceDir backupDir metadata.files done tree kept)
    intro done f n hdone
    exact (restoreFile_restores hundo (hdone.subset (by simp)) (faults n)).weaken
      (fun _ h => h) (fun _ _ h => h) (fun _ _ h => ⟨h.1, n, h.2⟩)
  apply hloop.weaken
  · exact fun v hv => ⟨hv, by simp⟩
  · exact fun _ v hv => ⟨hv.inside, hv.all⟩
  · exact fun _ _ hv => hv

end Restoring

section Calls

variable (m : SelfModifier)

/-- The modifier, the tree before the last `apply` that returned `Ok` with the changes it made,
and whether a later `apply` has failed once its backup took the place of the one before or was
being written into it. -/
structure Watched where
  world : World
  before : Option (Volume × List FileChange)
  spoiled : Bool

def Watched.start (volume : Volume) : Watched := ⟨⟨volume, ⟨none, none, none⟩⟩, none, false⟩

inductive Op where
  | analyze (request : Str) (second : Nat)
  | apply (planId : Str) (env : ApplyEnv)
  | rollback (faults : Nat → Faults)

inductive Answer where
  | analyzed (result : Except ModifyError ModifyPlan)
  | applied (result : Except ModifyError ModifyResult)
  | rolledBack (result : Except ModifyError RollbackResult)

/-- The plan a call of `apply` is about. -/
def planOf (w : World) (planId : Str) : Option ModifyPlan :=
  w.state.currentPlan.filter (·.id = planId)

def watch (t : Watched) : Op → Watched × List Answer
  | .analyze request second =>
    let r := analyze m t.world request second
    ({ t with world := r.1 }, [.analyzed r.2])
  | .apply planId env =>
    let r := apply m t.world planId env
    let watched : Watched :=
      match planOf t.world planId with
      | none => { t with world := r.1 }
      | some plan =>
        if r.2.isOk then ⟨r.1, some (t.world.volume, plan.files), false⟩
        else
          ⟨r.1, t.before, t.spoiled || r.1.state.currentBackup = some (backupIdOf env.second)⟩
    (watched, [.applied r.2])
  | .rollback faults =>
    let r := rollback m t.world faults
    ({ t with world := r.1 }, [.rolledBack r.2])

/-- The directories that new files go to are there already. -/
def HasParents (sourceDir : Loc) (files : List FileChange) (tree : Volume) : Prop :=
  ∀ f ∈ files, f.changeType = .create → tree.node (parentPlace sourceDir f.path) = some .dir

/-- An `apply` that returns an error leaves every file as it was. A `rollback` goes back to the
tree before the last `apply` that returned `Ok`, but for directories made for new files, and
fails only if an access fails. -/
def Restores (t : Watched) : Op → Prop
  | .analyze _ _ => True
  | .apply planId env =>
    (apply m t.world planId env).2.isOk = false →
      Restored m.sourceDir t.world.volume (apply m t.world planId env).1.volume
  | .rollback faults => ∀ tree files, t.before = some (tree, files) →
    ((∀ n, faults n = .free) → (rollback m t.world faults).2.isOk) ∧
      ((rollback m t.world faults).2.isOk →
        Restored m.sourceDir tree (rollback m t.world faults).1.volume ∧
          (HasParents m.sourceDir files tree → ∀ loc, m.sourceDir <+: loc →
            (rollback m t.world faults).1.volume.node loc = tree.node loc))

/-- The plan is orderly and fits the tree and the directory of the backup, no change fails once
a file has been altered, and no access fails when the changes have to be undone. -/
structure CarefulApply (w : World) (plan : ModifyPlan) (env : ApplyEnv) : Prop where
  orderly : Orderly plan.files
  covered : Covered m.sourceDir plan.files w.volume
  fresh : Fresh m.sourceDir (m.backupDir ++ [backupIdOf env.second]) plan.files w.volume
  early : ∀ backupId volume,
    createBackup m.printMetadata m.backupDir m.sourceDir env.second env.createdAt env.backup
      plan.files w.volume = .ok backupId volume →
    failsLate m.sourceDir m.debugStr env.changes false volume plan.files.zipIdx = false
  undone : (∀ result, env.validation = .ok result → result.success = false) →
    ∀ n, env.restore n = .free

def Careful (t : Watched) : Op → Prop
  | .analyze _ _ => True
  | .apply planId env => ∀ plan, planOf t.world planId = some plan → CarefulApply m t.world plan env
  | .rollback _ => t.before.isSome → t.spoiled = false

variable {m}

/-- The tree of a plan can be gone back to. -/
def Ready (m : SelfModifier) (tree : Volume) (files : List FileChange) (w : World) : Prop :=
  ∃ backupId, w.state.currentBackup = some backupId ∧
    Undoable m.parseMetadata m.sourceDir m.backupDir (m.backupDir ++ [backupId]) files tree
      w.volume ∧ Within m.sourceDir files tree w.volume

theorem Undoable.congr {parseMetadata : Str → Option BackupMetadata} {sourceDir backupDir bp : Loc}
    {files : List FileChange} {tree v v' : Volume}
    (h : Undoable parseMetadata sourceDir backupDir bp files tree v)
    (hsame : ∀ x, x ≠ [] → v'.node (bp ++ x) = v.node (bp ++ x)) :
    Undoable parseMetadata sourceDir backupDir bp files tree v' where
  orderly := h.orderly
  apart := h.apart
  below := h.below
  noDirs := h.noDirs
  backup := by
    have hplace : ∀ f ∈ files, v'.node (place bp f.path) = v.node (place bp f.path) := by
      intro f hf
      rw [place_eq (h.orderly.plain f hf)]
      exact hsame _ (names_ne_nil (h.orderly.plain f hf))
    obtain ⟨text, metadata, hnode, hmetadata⟩ := h.backup.metadata
    refine ⟨⟨text, metadata, (hsame _ (by simp)).trans hnode, hmetadata⟩, ?_, ?_⟩
    · exact fun f hf bytes hfile => (hplace f hf).trans (h.backup.copies f hf bytes hfile)
    · exact fun f hf hnone => (hplace f hf).trans (h.backup.nothing f hf hnone)

theorem Same.restored {sourceDir bp : Loc} {tree v : Volume} (h : Same bp tree v)
    (hapart : Apart sourceDir bp) : Restored sourceDir tree v :=
  fun _ hloc => Volume.content_congr (h.source hapart hloc)

theorem Same.within {sourceDir bp : Loc} {files : List FileChange} {tree v : Volume}
    (h : Same bp tree v) (hapart : Apart sourceDir bp) : Within sourceDir files tree v where
  dirs _ hloc hdir := (h.source hapart hloc).trans hdir
  made _ hloc hdir := Or.inl ((h.source hapart hloc).symm.trans hdir)
  changed loc hloc hne := absurd (h.restored hapart loc hloc) hne
  born loc hloc hnew hne := absurd ((h.restored hapart loc hloc).trans hnew) hne

variable (hround : ∀ metadata text, m.printMetadata metadata = some text →
    m.parseMetadata text = some metadata)
  (hauto : m.config.autoRollback = true) (hapart : Apart m.sourceDir m.backupDir)

include hauto in
theorem giveUp_restores {env : ApplyEnv} {backupId : Str} {w : World} {e : ModifyError}
    {files : List FileChange} {tree kept : Volume}
    (hundo : Undoable m.parseMetadata m.sourceDir m.backupDir (m.backupDir ++ [backupId]) files
      tree kept)
    (hinside : Inside m.sourceDir m.backupDir files tree kept w.volume)
    (hfree : ∀ n, env.restore n = .free) :
    Restored m.sourceDir tree (giveUp m env backupId w e).1.volume ∧
      (giveUp m env backupId w e).2.isOk = false ∧
        (giveUp m env backupId w e).1.state = w.state := by
  rw [giveUp, if_pos hauto]
  cases hrun : restoreBackup m.parseMetadata m.backupDir m.sourceDir env.restore backupId
      w.volume with
  | ok u volume =>
    exact ⟨((restoreBackup_restores hundo).of_ok hinside hrun).2, rfl, rfl⟩
  | error e' volume =>
    obtain ⟨-, n, hn⟩ := (restoreBackup_restores hundo).of_error hinside hrun
    exact absurd (hfree n) hn

theorem apply_of_no_plan {w : World} {planId : Str} {env : ApplyEnv}
    (h : planOf w planId = none) :
    (apply m w planId env).1 = w ∧ (apply m w planId env).2.isOk = false := by
  unfold apply
  cases hplan : w.state.currentPlan with
  | none => exact ⟨rfl, rfl⟩
  | some plan =>
    have hid : plan.id ≠ planId := by simpa [planOf, hplan, Option.filter] using h
    simp only [if_pos hid]
    exact ⟨trivial, rfl⟩

include hround hauto hapart in
/-- How a careful call ends: with the files as they were, or with a tree that can be gone back
to. The backup before it stays, unless it has been replaced. -/
theorem apply_careful {w : World} {planId : Str} {env : ApplyEnv} {plan : ModifyPlan}
    (hplan : planOf w planId = some plan) (h : CarefulApply m w plan env) :
    ((apply m w planId env).2.isOk = false →
      Restored m.sourceDir w.volume (apply m w planId env).1.volume) ∧
    ((apply m w planId env).2.isOk → Ready m w.volume plan.files (apply m w planId env).1) ∧
    ((apply m w planId env).1.state.currentBackup ≠ some (backupIdOf env.second) →
      (apply m w planId env).1.state.currentBackup = w.state.currentBackup ∧
        Same (m.backupDir ++ [backupIdOf env.second]) w.volume
          (apply m w planId env).1.volume) := by
  obtain ⟨hcurrent, hid⟩ : w.state.currentPlan = some plan ∧ plan.id = planId := by
    simpa [planOf, Option.filter_eq_some_iff] using hplan
  have hbp := hapart.below [backupIdOf env.second]
  have hbacks := createBackup_backs env.createdAt env.backup hround h.orderly hapart h.covered
    h.fresh
  cases hbackup : createBackup m.printMetadata m.backupDir m.sourceDir env.second env.createdAt
      env.backup plan.files w.volume with
  | error e volume =>
    have happly : apply m w planId env = ({ w with volume }, .error e) := by
      simp [apply, hcurrent, hid, hbackup]
    have hsame := hbacks.of_error rfl hbackup
    rw [happly]
    exact ⟨fun _ => hsame.restored hbp, nofun, fun _ => ⟨rfl, hsame⟩⟩
  | ok backupId kept =>
    obtain ⟨rfl, hsame, hmade⟩ := hbacks.of_ok rfl hbackup
    have hstart : Inside m.sourceDir m.backupDir plan.files w.volume kept kept :=
      ⟨hsame.within hbp, fun _ _ => rfl⟩
    let state := { w.state with currentBackup := some (backupIdOf env.second) }
    cases hrun : applyPlan m.debugStr m.sourceDir env.changes plan kept with
    | error e volume =>
      have happly : apply m w planId env = (⟨volume, state⟩, .error e) := by
        simp [apply, hcurrent, hid, hbackup, hrun, state]
      rw [happly]
      refine ⟨fun _ loc hloc => ?_, nofun, fun hne => absurd rfl hne⟩
      rw [changes_files (h.early _ _ hbackup) hrun loc]
      exact hsame.restored hbp loc hloc
    | ok u volume =>
      obtain ⟨hinside, hdirs⟩ := (applyPlan_inside hapart h.orderly.plain).of_ok hstart hrun
      have hundo : Undoable m.parseMetadata m.sourceDir m.backupDir
          (m.backupDir ++ [backupIdOf env.second]) plan.files w.volume kept :=
        ⟨h.orderly, hapart, List.prefix_append _ _, hmade, hdirs⟩
      have hgiveUp : ∀ e, apply m w planId env =
          giveUp m env (backupIdOf env.second) ⟨volume, state⟩ e →
          (∀ n, env.restore n = .free) →
          ((apply m w planId env).2.isOk = false →
            Restored m.sourceDir w.volume (apply m w planId env).1.volume) ∧
          ((apply m w planId env).2.isOk →
            Ready m w.volume plan.files (apply m w planId env).1) ∧
          ((apply m w planId env).1.state.currentBackup ≠ some (backupIdOf env.second) →
            (apply m w planId env).1.state.currentBackup = w.state.currentBackup ∧
              Same (m.backupDir ++ [backupIdOf env.second]) w.volume
                (apply m w planId env).1.volume) := by
        intro e happly hfree
        obtain ⟨hrestored, herr, hstate⟩ :=
          giveUp_restores (w := ⟨volume, state⟩) (e := e) hauto hundo hinside hfree
        rw [happly, hstate, herr]
        exact ⟨fun _ => hrestored, nofun, fun hne => absurd rfl hne⟩
      cases hvalid : env.validation with
      | ok result =>
        by_cases hsuccess : result.success
        · have happly : apply m w planId env = (⟨volume, state⟩,
              .ok ⟨true, backupIdOf env.second, plan.files.length, result⟩) := by
            simp [apply, hcurrent, hid, hbackup, hrun, hvalid, hsuccess, state]
          rw [happly]
          refine ⟨nofun, fun _ => ?_, fun hne => absurd rfl hne⟩
          refine ⟨_, rfl, hundo.congr fun x _ => ?_, hinside.within⟩
          exact hinside.aside _ (by rw [List.append_assoc]; exact List.prefix_append _ _)
        · apply hgiveUp (.validationFailed result)
          · simp [apply, hcurrent, hid, hbackup, hrun, hvalid, hsuccess, state]
          · apply h.undone
            intro result' hresult
            rw [hvalid] at hresult
            cases hresult
            simpa using hsuccess
      | error e =>
        apply hgiveUp e
        · simp [apply, hcurrent, hid, hbackup, hrun, hvalid, state]
        · apply h.undone
          intro result' hresult
          rw [hvalid] at hresult
          cases hresult

theorem Within.congr {sourceDir : Loc} {files : List FileChange} {tree v v' : Volume}
    (h : Within sourceDir files tree v)
    (hsame : ∀ loc, sourceDir <+: loc → v'.node loc = v.node loc) :
    Within sourceDir files tree v' where
  dirs loc hloc hdir := (hsame loc hloc).trans (h.dirs loc hloc hdir)
  made loc hloc hdir := h.made loc hloc ((hsame loc hloc).symm.trans hdir)
  changed loc hloc hne := h.changed loc hloc (by rwa [Volume.content_congr (hsame loc hloc)] at hne)
  born loc hloc hnew hne :=
    h.born loc hloc hnew (by rwa [Volume.content_congr (hsame loc hloc)] at hne)

/-- Making a backup does not harm another. -/
theorem Ready.of_same {tree : Volume} {files : List FileChange} {w w' : World} {backupId : Str}
    (h : Ready m tree files w) (hstate : w'.state.currentBackup = w.state.currentBackup)
    (hne : w'.state.currentBackup ≠ some backupId)
    (hsame : Same (m.backupDir ++ [backupId]) w.volume w'.volume) : Ready m tree files w' := by
  obtain ⟨other, hother, hundo, hwithin⟩ := h
  refine ⟨other, hstate.trans hother, hundo.congr fun x hx => ?_,
    hwithin.congr fun loc hloc => hsame.source (hundo.apart.below _) hloc⟩
  apply hsame
  · intro hprefix
    rw [List.append_assoc, List.prefix_append_right_inj] at hprefix
    have heq : backupId = other := (List.cons_prefix_cons.mp hprefix).1
    exact hne (by rw [hstate, hother, heq])
  · intro hprefix
    have hlength := hprefix.length_le
    have hpos := List.length_pos_of_ne_nil hx
    simp only [List.length_append, List.length_singleton] at hlength
    omega

/-- Only the directories made for new files remain. -/
theorem Within.node_eq {sourceDir : Loc} {files : List FileChange} {tree v : Volume}
    (h : Within sourceDir files tree v) (hrestored : Restored sourceDir tree v)
    (hparents : HasParents sourceDir files tree) {loc : Loc} (hloc : sourceDir <+: loc) :
    v.node loc = tree.node loc := by
  have hcontent := hrestored loc hloc
  cases htree : tree.node loc with
  | some n =>
    cases n with
    | dir => exact h.dirs loc hloc htree
    | file bytes => rwa [Volume.content_eq_some.mpr htree, Volume.content_eq_some] at hcontent
  | none =>
    have hnot : tree.node loc ≠ some .dir := by rw [htree]; nofun
    cases hnow : v.node loc with
    | none => rfl
    | some n =>
      cases n with
      | file bytes =>
        rw [Volume.content_eq_some.mpr hnow] at hcontent
        rw [Volume.content_eq_some.mp hcontent.symm] at htree
        cases htree
      | dir =>
        obtain hdir | ⟨f, hf, hcreate, rest, hway⟩ := h.made loc hloc hnow
        · exact absurd hdir hnot
        · have hparent := hparents f hf hcreate
          rw [← hway] at hparent
          by_cases hrest : rest = []
          · rw [hrest, List.append_nil] at hparent
            exact absurd hparent hnot
          · exact absurd (tree.node_of_prefix (by rw [hparent]; nofun) hrest) hnot

/-- Going back to a tree that can be gone back to. -/
theorem rollback_ready {tree : Volume} {files : List FileChange} {w : World}
    (h : Ready m tree files w) (faults : Nat → Faults) :
    ((∀ n, faults n = .free) → (rollback m w faults).2.isOk) ∧
      ((rollback m w faults).2.isOk → Restored m.sourceDir tree (rollback m w faults).1.volume ∧
        (HasParents m.sourceDir files tree → ∀ loc, m.sourceDir <+: loc →
          (rollback m w faults).1.volume.node loc = tree.node loc)) ∧
      Ready m tree files (rollback m w faults).1 := by
  obtain ⟨backupId, hcurrent, hundo, hwithin⟩ := h
  have hinside : Inside m.sourceDir m.backupDir files tree w.volume w.volume :=
    ⟨hwithin, fun _ _ => rfl⟩
  have hready : ∀ v, Inside m.sourceDir m.backupDir files tree w.volume v →
      Ready m tree files { w with volume := v } := by
    intro v hv
    refine ⟨backupId, hcurrent, hundo.congr fun x _ => hv.aside _ ?_, hv.within⟩
    rw [List.append_assoc]
    exact List.prefix_append _ _
  cases hrun : restoreBackup m.parseMetadata m.backupDir m.sourceDir faults backupId w.volume with
  | error e v =>
    have hroll : rollback m w faults = ({ w with volume := v }, .error e) := by
      simp [rollback, hcurrent, hrun]
    obtain ⟨hv, n, hn⟩ := (restoreBackup_restores hundo).of_error hinside hrun
    rw [hroll]
    exact ⟨fun hfree => absurd (hfree n) hn, nofun, hready v hv⟩
  | ok u v =>
    have hroll : rollback m w faults = ({ w with volume := v }, .ok ⟨true, backupId⟩) := by
      simp [rollback, hcurrent, hrun]
    obtain ⟨hv, hrestored⟩ := (restoreBackup_restores hundo).of_ok hinside hrun
    rw [hroll]
    exact ⟨fun _ => rfl, fun _ => ⟨hrestored, fun hparents loc hloc =>
      hv.within.node_eq hrestored hparents hloc⟩, hready v hv⟩

/-- As long as its backup is not spoiled, the tree before the last `apply` that returned `Ok`
can be gone back to. -/
def Tracks (m : SelfModifier) (t : Watched) : Prop :=
  ∀ tree files, t.before = some (tree, files) → t.spoiled = false → Ready m tree files t.world

include hround hauto hapart in
theorem watch_tracks (t : Watched) (op : Op) (ht : Tracks m t) (hop : Careful m t op) :
    Restores m t op ∧ Tracks m (watch m t op).1 := by
  cases op with
  | analyze request second =>
    refine ⟨trivial, fun tree files hbefore hspoiled => ?_⟩
    obtain ⟨backupId, hcurrent, hundo, hwithin⟩ := ht tree files hbefore hspoiled
    have hanalyze : (analyze m t.world request second).1.volume = t.world.volume ∧
        (analyze m t.world request second).1.state.currentBackup =
          t.world.state.currentBackup := by
      unfold analyze
      split
      · exact ⟨rfl, rfl⟩
      · split
        · exact ⟨rfl, rfl⟩
        · exact ⟨rfl, rfl⟩
    refine ⟨backupId, hanalyze.2.trans hcurrent, ?_, ?_⟩
    · exact hundo.congr fun _ _ => by rw [watch, hanalyze.1]
    · exact hwithin.congr fun _ _ => by rw [watch, hanalyze.1]
  | apply planId env =>
    cases hplan : planOf t.world planId with
    | none =>
      obtain ⟨hworld, -⟩ := @apply_of_no_plan m _ _ env hplan
      constructor
      · intro _ loc _
        rw [hworld]
      · simp only [watch, hplan, hworld]
        exact ht
    | some plan =>
      obtain ⟨hrestored, hready, hother⟩ := apply_careful hround hauto hapart hplan (hop plan hplan)
      refine ⟨hrestored, fun tree files hbefore hspoiled => ?_⟩
      by_cases hok : (apply m t.world planId env).2.isOk
      · simp only [watch, hplan, hok, if_true] at hbefore ⊢
        cases hbefore
        exact hready hok
      · simp only [watch, hplan, hok, if_false, Bool.false_eq_true] at hbefore hspoiled ⊢
        rw [Bool.or_eq_false_iff, decide_eq_false_iff_not] at hspoiled
        obtain ⟨hstate, hsame⟩ := hother hspoiled.2
        exact (ht tree files hbefore hspoiled.1).of_same hstate hspoiled.2 hsame
  | rollback faults =>
    constructor
    · intro tree files hbefore
      have hspoiled := hop (by rw [hbefore]; rfl)
      obtain ⟨hfree, hrestored, -⟩ := rollback_ready (ht tree files hbefore hspoiled) faults
      exact ⟨hfree, hrestored⟩
    · intro tree files hbefore hspoiled
      exact (rollback_ready (ht tree files hbefore hspoiled) faults).2.2

/-- In every run of careful calls, what fails changes no file and what is applied can be rolled
back. -/
theorem calls_restore (hround : ∀ metadata text, m.printMetadata metadata = some text →
      m.parseMetadata text = some metadata)
    (hauto : m.config.autoRollback = true) (hapart : Apart m.sourceDir m.backupDir)
    (volume : Volume) (ops : List Op)
    (hops : Run.Allowed (watch m) (Careful m) (.start volume) ops) :
    Run.Allowed (watch m) (Restores m) (.start volume) ops :=
  Run.allowed_of_allowed (watch m) (Tracks m)
    (fun t op ht hop => watch_tracks hround hauto hapart t op ht hop) nofun hops

section Sample

def serverFile : Loc := place ["src".toList] "crates/clawreform-api/src/server.rs".toList

def routesFile : Loc := place ["src".toList] "crates/clawreform-api/src/routes.rs".toList

def sampleMetadata : BackupMetadata := ⟨backupIdOf 60, 60000000000, findAffectedFiles .api⟩

def sampleJson : Str := "\x7b
  \"id\": \"backup_19700101_000100\",
  \"created_at\": \"1970-01-01T00:01:00Z\",
  \"files\": [
    \x7b
      \"path\": \"crates/clawreform-api/src/server.rs\",
      \"change_type\": \"modify\",
      \"diff_preview\": \"// Route registration will be added\",
      \"lines_added\": 5,
      \"lines_removed\": 0
    \x7d,
    \x7b
      \"path\": \"crates/clawreform-api/src/routes.rs\",
      \"change_type\": \"modify\",
      \"diff_preview\": \"// Handler function will be added\",
      \"lines_added\": 30,
      \"lines_removed\": 0
    \x7d
  ]
\x7d".toList

def sampleModifier : SelfModifier where
  analyzeRequest := analyzeRequest id
  debugStr path := '"' :: (path ++ ['"'])
  printMetadata metadata := if metadata = sampleMetadata then some sampleJson else none
  parseMetadata text := if text = sampleJson then some sampleMetadata else none
  sourceDir := ["src".toList]
  backupDir := ["backups".toList]
  config := {}

theorem sampleModifier_round (metadata : BackupMetadata) (text : Str)
    (h : sampleModifier.printMetadata metadata = some text) :
    sampleModifier.parseMetadata text = some metadata := by
  simp only [sampleModifier, Option.ite_none_right_eq_some, Option.some.injEq] at h ⊢
  obtain ⟨rfl, rfl⟩ := h
  exact ⟨rfl, rfl⟩

def sampleEnv : ApplyEnv where
  second := 60
  createdAt := 60000000000
  backup _ := .free
  changes _ := .free
  validation := .ok ⟨true, true, true, true, [], []⟩
  restore _ := .free

def sampleRequest : Op := .analyze "add an endpoint".toList 0

def samplePlanId : Str := "mod_19700101_000000".toList

def samplePlan : ModifyPlan where
  id := samplePlanId
  description := "add an endpoint".toList
  files := findAffectedFiles .api
  complexity := 1
  requiresApproval := false
  riskLevel := .medium

/-- A tree with these files in it. -/
def sampleTree (files : List Loc) : Volume :=
  match (files.forM fun loc => do
    createDirAll .free loc.dropLast
    writeFile .free loc (encode "fn f()".toList) : EStateM IoError Volume Unit) .empty with
  | .ok _ v => v
  | .error _ v => v

def analyzed (files : List Loc) : Watched :=
  (watch sampleModifier (.start (sampleTree files)) sampleRequest).1

theorem analyze_sample (w : World) : analyze sampleModifier w "add an endpoint".toList 0 =
    (⟨w.volume, some samplePlan, w.state.currentBackup, some "add an endpoint".toList⟩,
      .ok samplePlan) := by
  have hplan : sampleModifier.analyzeRequest "add an endpoint".toList 0 = .ok samplePlan := by
    decide +kernel
  rw [analyze, hplan]
  rfl

theorem analyzed_world (files : List Loc) : (analyzed files).world =
    ⟨sampleTree files, some samplePlan, none, some "add an endpoint".toList⟩ := by
  show (analyze sampleModifier _ "add an endpoint".toList 0).1 = _
  rw [analyze_sample]
  rfl

/-- Whether a value is there and has a property. -/
def endsWith {ε σ α : Type} (p : σ → Bool) : EStateM.Result ε σ α → Bool
  | .ok _ s => p s
  | .error _ _ => false

theorem careful_sample : CarefulApply sampleModifier (analyzed [serverFile, routesFile]).world
    samplePlan sampleEnv where
  orderly := ⟨by decide +kernel, by decide +kernel, by decide +kernel⟩
  covered := by
    have hmodify : ∀ f ∈ samplePlan.files, f.changeType ≠ .create := by decide +kernel
    exact fun f hf hcreate => absurd hcreate (hmodify f hf)
  fresh := by
    rw [analyzed_world]
    decide +kernel
  early backupId volume hbackup := by
    simp only [analyzed_world] at hbackup
    -- the changes go through when both files are there
    have hearly : endsWith (fun v => failsLate sampleModifier.sourceDir sampleModifier.debugStr
        sampleEnv.changes false v samplePlan.files.zipIdx)
        (createBackup sampleModifier.printMetadata sampleModifier.backupDir
          sampleModifier.sourceDir sampleEnv.second sampleEnv.createdAt sampleEnv.backup
          samplePlan.files (sampleTree [serverFile, routesFile])) = false := by decide +kernel
    rw [hbackup, endsWith] at hearly
    exact hearly
  undone hfail := by cases hfail _ rfl

end Sample

/-- A first call that fails spoils nothing that could be gone back to. -/
theorem spoiled_apply {t : Watched} (hbefore : t.before = none) (hspoiled : t.spoiled = false)
    (planId : Str) (env : ApplyEnv) : (watch m t (.apply planId env)).1.before.isSome →
      (watch m t (.apply planId env)).1.spoiled = false := by
  simp only [watch]
  split
  · exact fun _ => hspoiled
  · split
    · exact fun _ => rfl
    · simp only [hbefore]
      exact fun h => by cases h

theorem calls_restore_sample : Run.Allowed (watch sampleModifier) (Restores sampleModifier)
    (.start (sampleTree [serverFile, routesFile]))
    [sampleRequest, .apply samplePlanId sampleEnv, .rollback fun _ => .free] := by
  apply calls_restore sampleModifier_round rfl (by decide)
  refine ⟨trivial, fun plan hplan => ?_, fun hbefore => ?_, trivial⟩
  · rw [← analyzed, analyzed_world] at hplan
    obtain rfl : samplePlan = plan := Option.some.inj hplan
    exact careful_sample
  · rw [← analyzed] at hbefore ⊢
    exact spoiled_apply rfl rfl samplePlanId sampleEnv hbefore

/-- The second of two changes fails: the first is not undone. -/
theorem second_change_fails : ¬ ∀ m : SelfModifier,
    (∀ metadata text, m.printMetadata metadata = some text →
      m.parseMetadata text = some metadata) →
    m.config.autoRollback = true → Apart m.sourceDir m.backupDir → ∀ volume ops,
    Run.Allowed (watch m) (Restores m) (.start volume) ops := by
  intro hall
  obtain ⟨-, hrestores, -⟩ := hall sampleModifier sampleModifier_round rfl (by decide)
    (sampleTree [serverFile]) [sampleRequest, .apply samplePlanId sampleEnv]
  have herr : (apply sampleModifier (analyzed [serverFile]).world samplePlanId sampleEnv).2.isOk =
      false := by
    rw [analyzed_world]
    decide +kernel
  have hfile := hrestores herr serverFile (by decide +kernel)
  revert hfile
  decide +kernel

end Calls

end Clawreform.Kernel.SelfModify

import Clawreform.Lib.Text
import Clawreform.Lib.ShellSyntax

namespace Clawreform.Runtime.SubprocessSandbox

open Clawreform.Lib.Text
open Clawreform.Lib.ShellSyntax (commandNames baseName)

inductive ExecSecurityMode where
  | deny
  | allowlist
  | full
  deriving DecidableEq

structure ExecPolicy where
  mode : ExecSecurityMode
  safeBins : List Str
  allowedCommands : List Str
  deriving DecidableEq

def ExecPolicy.default : ExecPolicy where
  mode := .allowlist
  safeBins := ["sleep".toList, "true".toList, "false".toList, "cat".toList, "sort".toList,
    "uniq".toList, "cut".toList, "tr".toList, "head".toList, "tail".toList, "wc".toList,
    "date".toList, "echo".toList, "printf".toList, "basename".toList, "dirname".toList,
    "pwd".toList, "env".toList]
  allowedCommands := []

def extractBaseCommand (cmd : Str) : Str :=
  afterLast '\\' (afterLast '/' (firstWord (trim cmd)))

def separators : List Str := ["&&".toList, "||".toList, "|".toList, ";".toList]

def earlier (rest : Str) (e : Nat × Nat) (sep : Str) : Nat × Nat :=
  match find sep rest with
  | some pos => if pos < e.1 then (pos, sep.length) else e
  | none => e

/-- The position and the length of the earliest separator; the end of the text
and 0 when there is none. -/
def earliestSeparator (rest : Str) : Nat × Nat :=
  separators.foldl (earlier rest) (rest.length, 0)

def extractLoop : Nat → Str → List Str
  | 0, _ => []
  | fuel + 1, rest =>
    if rest = [] then []
    else
      let e := earliestSeparator rest
      let base := extractBaseCommand (rest.take e.1)
      let found := if base = [] then [] else [base]
      if rest.length ≤ e.1 + e.2 then found
      else found ++ extractLoop fuel (rest.drop (e.1 + e.2))

/-- Each turn of the loop uses up a separator, so the text's length is fuel
enough. -/
def extractAllCommands (command : Str) : List Str := extractLoop command.length command

def isListed (policy : ExecPolicy) (base : Str) : Bool :=
  policy.safeBins.contains base || policy.allowedCommands.contains base

/-- `none` is the panic of the log line of full mode, which slices the command
at its hundredth byte. -/
def validateCommandAllowlist (command : Str) (policy : ExecPolicy) : Option (Except Str Unit) :=
  match policy.mode with
  | .deny => some (.error "Shell execution is disabled (exec_policy.mode = deny)".toList)
  | .full => (splitBytes (min (byteLen command) 100) command).map (fun _ => .ok ())
  | .allowlist =>
    match (extractAllCommands command).find? (fun base => !isListed policy base) with
    | some base => some (.error ("Command '".toList ++ base ++
        ("' is not in the exec allowlist. Add it to exec_policy.allowed_commands or " ++
          "exec_policy.safe_bins.").toList))
    | none => some (.ok ())

theorem validateCommandAllowlist_ok_iff {command : Str} {policy : ExecPolicy}
    (hm : policy.mode = .allowlist) :
    validateCommandAllowlist command policy = some (.ok ()) ↔
      ∀ base ∈ extractAllCommands command, isListed policy base = true := by
  unfold validateCommandAllowlist
  rw [hm]
  cases h : (extractAllCommands command).find? (fun base => !isListed policy base) with
  | none =>
    simp only [List.find?_eq_none, Bool.not_eq_true', Bool.not_eq_false] at h
    simpa using h
  | some base =>
    simp only [Option.some.injEq, reduceCtorEq, false_iff]
    intro hall
    have hb := List.find?_some h
    rw [hall base (List.mem_of_find?_eq_some h)] at hb
    cases hb

/-- Put a character in front of the first piece. -/
def consHead (c : Char) : List Str → List Str
  | [] => [[c]]
  | p :: ps => (c :: p) :: ps

/-- The pieces the separators cut a text into, wherever they stand. -/
@[grind =] def pieces : Str → List Str
  | [] => [[]]
  | '&' :: '&' :: s => [] :: pieces s
  | c :: s => if c = ';' ∨ c = '|' then [] :: pieces s else consHead c (pieces s)

theorem earlier_shift {c : Char} {rest : Str} {seps : List Str}
    (h : ∀ sep ∈ seps, ¬ sep <+: c :: rest) (e : Nat × Nat) :
    seps.foldl (earlier (c :: rest)) (e.1 + 1, e.2) =
      ((seps.foldl (earlier rest) e).1 + 1, (seps.foldl (earlier rest) e).2) := by
  induction seps generalizing e with
  | nil => rfl
  | cons sep seps ih =>
    have hf : find sep (c :: rest) = (find sep rest).map (· + 1) := by
      simp [find, h sep (List.mem_cons_self ..)]
    have hstep : earlier (c :: rest) (e.1 + 1, e.2) sep =
        ((earlier rest e sep).1 + 1, (earlier rest e sep).2) := by
      unfold earlier
      rw [hf]
      cases find sep rest with
      | none => rfl
      | some pos =>
        simp only [Option.map_some, Nat.add_lt_add_iff_right]
        split <;> rfl
    rw [List.foldl_cons, List.foldl_cons, hstep]
    exact ih (fun sep hs => h sep (List.mem_cons_of_mem _ hs)) _

theorem earlier_zero {rest : Str} {n : Nat} (seps : List Str) :
    seps.foldl (earlier rest) (0, n) = (0, n) := by
  induction seps with
  | nil => rfl
  | cons sep seps ih =>
    have : earlier rest (0, n) sep = (0, n) := by
      unfold earlier
      split <;> simp
    rw [List.foldl_cons, this, ih]

theorem earlier_pos {c : Char} {rest : Str} {seps : List Str} {e : Nat × Nat} (he : 0 < e.1)
    (h : ∀ sep ∈ seps, ¬ sep <+: c :: rest) : 0 < (seps.foldl (earlier (c :: rest)) e).1 := by
  have := earlier_shift h (e.1 - 1, e.2)
  rw [show (e.1 - 1, e.2).1 + 1 = e.1 by simp only; omega] at this
  rw [this]
  omega

/-- The first separator of the list that stands at the head of the text wins. -/
theorem earliest_head {c : Char} {rest sep : Str} (pre : List Str) {post : List Str}
    (hs : separators = pre ++ sep :: post) (hpre : ∀ sep ∈ pre, ¬ sep <+: c :: rest)
    (h : sep <+: c :: rest) : earliestSeparator (c :: rest) = (0, sep.length) := by
  have hp := earlier_pos (show 0 < (((c :: rest).length, 0) : Nat × Nat).1 by simp) hpre
  unfold earliestSeparator
  rw [hs, List.foldl_append, List.foldl_cons, earlier]
  simp only [find, h, ↓reduceIte, hp]
  exact earlier_zero post

theorem earliest_cons {c : Char} {rest : Str} (h : ∀ sep ∈ separators, ¬ sep <+: c :: rest) :
    earliestSeparator (c :: rest) =
      ((earliestSeparator rest).1 + 1, (earliestSeparator rest).2) :=
  earlier_shift h (rest.length, 0)

theorem pieces_cons {c : Char} {rest : Str} (h : ∀ sep ∈ separators, ¬ sep <+: c :: rest) :
    pieces (c :: rest) = consHead c (pieces rest) := by
  have hsemi : c ≠ ';' := by
    rintro rfl
    exact h ";".toList (by decide) ⟨rest, rfl⟩
  have hpipe : c ≠ '|' := by
    rintro rfl
    exact h "|".toList (by decide) ⟨rest, rfl⟩
  rw [pieces.eq_3]
  · simp [hsemi, hpipe]
  · rintro s rfl rfl
    exact h "&&".toList (by decide) ⟨s, rfl⟩

/-- One turn of the loop cuts off the first piece. An empty piece may stand
between the two halves of `||`. -/
theorem earliestSeparator_cuts (rest : Str) :
    (earliestSeparator rest = (rest.length, 0) ∧ pieces rest = [rest]) ∨
    ∃ seg sep s extra, rest = seg ++ (sep ++ s) ∧ sep ≠ [] ∧
      earliestSeparator rest = (seg.length, sep.length) ∧
      pieces rest = seg :: (extra ++ pieces s) ∧ ∀ p ∈ extra, p = [] := by
  induction rest with
  | nil => exact Or.inl ⟨rfl, rfl⟩
  | cons c rest ih =>
    by_cases hand : "&&".toList <+: c :: rest
    · obtain ⟨s, hs⟩ := hand
      refine Or.inr ⟨[], "&&".toList, s, [], by rw [← hs]; rfl, by decide, ?_, ?_, by simp⟩
      · exact earliest_head [] rfl (by simp) ⟨s, hs⟩
      · rw [← hs]
        rfl
    by_cases hor : "||".toList <+: c :: rest
    · obtain ⟨s, hs⟩ := hor
      refine Or.inr ⟨[], "||".toList, s, [[]], by rw [← hs]; rfl, by decide, ?_, ?_, by simp⟩
      · exact earliest_head ["&&".toList] rfl
          (List.forall_mem_cons.mpr ⟨hand, by simp⟩) ⟨s, hs⟩
      · rw [← hs]
        simp [pieces]
    by_cases hpipe : "|".toList <+: c :: rest
    · obtain ⟨s, hs⟩ := hpipe
      refine Or.inr ⟨[], "|".toList, s, [], by rw [← hs]; rfl, by decide, ?_, ?_, by simp⟩
      · exact earliest_head ["&&".toList, "||".toList] rfl
          (List.forall_mem_cons.mpr ⟨hand, List.forall_mem_cons.mpr ⟨hor, by simp⟩⟩) ⟨s, hs⟩
      · rw [← hs]
        simp [pieces]
    by_cases hsemi : ";".toList <+: c :: rest
    · obtain ⟨s, hs⟩ := hsemi
      refine Or.inr ⟨[], ";".toList, s, [], by rw [← hs]; rfl, by decide, ?_, ?_, by simp⟩
      · exact earliest_head ["&&".toList, "||".toList, "|".toList] rfl
          (List.forall_mem_cons.mpr ⟨hand, List.forall_mem_cons.mpr ⟨hor,
            List.forall_mem_cons.mpr ⟨hpipe, by simp⟩⟩⟩) ⟨s, hs⟩
      · rw [← hs]
        simp [pieces]
    have hnone : ∀ sep ∈ separators, ¬ sep <+: c :: rest := by
      intro sep hs
      simp only [separators, List.mem_cons, List.not_mem_nil, or_false] at hs
      rcases hs with rfl | rfl | rfl | rfl <;> assumption
    rw [earliest_cons hnone, pieces_cons hnone]
    rcases ih with ⟨he, hp⟩ | ⟨seg, sep, s, extra, hr, hsep, he, hp, hx⟩
    · rw [he, hp]
      exact Or.inl ⟨rfl, rfl⟩
    · rw [he, hp]
      exact Or.inr ⟨c :: seg, sep, s, extra, by rw [hr]; rfl, hsep, rfl, rfl, hx⟩

/-- A base name is spelled out in a text when it is the base name of the first
word of one of its pieces. -/
def Spelled (text base : Str) : Prop := base ≠ [] ∧ ∃ p ∈ pieces text, extractBaseCommand p = base

theorem spelled_nil (base : Str) : ¬ Spelled [] base := by
  rintro ⟨hne, p, hp, rfl⟩
  obtain rfl : p = [] := by simpa [pieces] using hp
  exact hne (by decide)

theorem extractBaseCommand_nil : extractBaseCommand [] = [] := by decide

theorem mem_extractLoop_iff {fuel : Nat} {rest base : Str} (hf : rest.length ≤ fuel) :
    base ∈ extractLoop fuel rest ↔ Spelled rest base := by
  induction fuel generalizing rest with
  | zero =>
    obtain rfl : rest = [] := List.eq_nil_of_length_eq_zero (by omega)
    simp [extractLoop, spelled_nil]
  | succ fuel ih =>
    by_cases hr : rest = []
    · subst hr
      simp [extractLoop, spelled_nil]
    rw [extractLoop, if_neg hr]
    have hfound : ∀ seg : Str, base ∈ (if extractBaseCommand seg = [] then []
        else [extractBaseCommand seg]) ↔ base ≠ [] ∧ extractBaseCommand seg = base := by
      intro seg
      split <;> rename_i h
      · simp only [List.not_mem_nil, ne_eq, h, false_iff, not_and]
        exact fun hne he => hne he.symm
      · simp only [List.mem_singleton, ne_eq]
        exact ⟨fun he => ⟨he ▸ h, he.symm⟩, fun he => he.2.symm⟩
    rcases earliestSeparator_cuts rest with ⟨he, hp⟩ | ⟨seg, sep, s, extra, hrest, hsep, he, hp, hx⟩
    · simp only [he, List.take_length, Nat.add_zero, le_refl, ↓reduceIte, hfound, Spelled, hp]
      simp
    · have hlen : 0 < sep.length := List.length_pos_iff.mpr hsep
      have htake : rest.take seg.length = seg := by simp [hrest]
      have hdrop : rest.drop (seg.length + sep.length) = s := by
        rw [hrest, ← List.append_assoc, ← List.length_append, List.drop_left']
        rfl
      have hcut : Spelled rest base ↔
          (base ≠ [] ∧ extractBaseCommand seg = base) ∨ Spelled s base := by
        constructor
        · rintro ⟨hne, p, hmem, hb⟩
          rw [hp, List.mem_cons, List.mem_append] at hmem
          rcases hmem with rfl | hmem | hmem
          · exact Or.inl ⟨hne, hb⟩
          · rw [hx p hmem, extractBaseCommand_nil] at hb
            exact absurd hb.symm hne
          · exact Or.inr ⟨hne, p, hmem, hb⟩
        · rintro (⟨hne, hb⟩ | ⟨hne, p, hmem, hb⟩)
          · exact ⟨hne, seg, by simp [hp], hb⟩
          · exact ⟨hne, p, by simp [hp, hmem], hb⟩
      simp only [he, htake, hdrop]
      rw [hcut]
      split <;> rename_i hend
      · have hs : s = [] := by
          apply List.eq_nil_of_length_eq_zero
          rw [hrest, List.length_append, List.length_append] at hend
          omega
        rw [hfound, hs]
        simp [spelled_nil]
      · rw [List.mem_append, hfound, ih]
        rw [hrest, List.length_append, List.length_append] at hf
        omega

theorem mem_extractAllCommands_iff {text base : Str} :
    base ∈ extractAllCommands text ↔ Spelled text base :=
  mem_extractLoop_iff (le_refl _)

@[simp] theorem foldr_consHead_cons (q p : Str) (ps : List Str) :
    q.foldr consHead (p :: ps) = (q ++ p) :: ps := by
  induction q with
  | nil => rfl
  | cons c q ih => rw [List.foldr_cons, ih, consHead, List.cons_append]

theorem pieces_append_word {u : Str} (t : Str) (h : ∀ c ∈ u, c ≠ ';' ∧ c ≠ '|' ∧ c ≠ '&') :
    pieces (u ++ t) = u.foldr consHead (pieces t) := by
  induction u with
  | nil => rfl
  | cons c u ih =>
    obtain ⟨hsemi, hpipe, hand⟩ := h c (List.mem_cons_self ..)
    rw [List.cons_append, pieces_cons, ih (fun d hd => h d (List.mem_cons_of_mem _ hd)),
      List.foldr_cons]
    intro sep hs
    simp only [separators, List.mem_cons, List.not_mem_nil, or_false] at hs
    rcases hs with rfl | rfl | rfl | rfl <;>
      simp [Ne.symm hsemi, Ne.symm hpipe, Ne.symm hand]

/-- The pieces of a text are found again after any text in front of it, unless
an `&` at the seam pairs up. -/
theorem pieces_append (p t : Str) (h : p.getLast? = some '&' → t.head? ≠ some '&') :
    ∃ (ps : List Str) (q : Str), pieces (p ++ t) = ps ++ q.foldr consHead (pieces t) := by
  have hlast : ∀ {c : Char} {s : Str}, s.getLast? = some '&' → (c :: s).getLast? = some '&' := by
    intro c s hs
    rw [List.getLast?_cons, hs]
    rfl
  -- the character after `c` is no `&` that pairs with it
  have hnext : ∀ {c : Char} {s : Str}, (∀ s', c = '&' → s = '&' :: s' → False) →
      ((c :: s).getLast? = some '&' → t.head? ≠ some '&') →
      pieces (c :: (s ++ t)) = if c = ';' ∨ c = '|' then [] :: pieces (s ++ t)
        else consHead c (pieces (s ++ t)) := by
    intro c s hns hseam
    apply pieces.eq_3
    rintro s' rfl hs
    cases s with
    | nil =>
      refine hseam rfl ?_
      rw [List.nil_append] at hs
      rw [hs]
      rfl
    | cons d s =>
      obtain ⟨rfl, -⟩ : d = '&' ∧ s ++ t = s' := by simpa using hs
      exact hns s rfl rfl
  induction p using pieces.induct with
  | case1 => exact ⟨[], [], rfl⟩
  | case2 s ih =>
    obtain ⟨ps, q, hq⟩ := ih (fun hs => h (hlast (hlast hs)))
    exact ⟨[] :: ps, q, by rw [List.cons_append, List.cons_append, pieces, hq]; rfl⟩
  | case3 c s hns hc ih =>
    obtain ⟨ps, q, hq⟩ := ih (fun hs => h (hlast hs))
    exact ⟨[] :: ps, q, by rw [List.cons_append, hnext hns h, if_pos hc, hq]; rfl⟩
  | case4 c s hns hc ih =>
    obtain ⟨ps, q, hq⟩ := ih (fun hs => h (hlast hs))
    rw [List.cons_append, hnext hns h, if_neg hc, hq]
    cases ps with
    | nil => exact ⟨[], c :: q, rfl⟩
    | cons p ps => exact ⟨(c :: p) :: ps, q, rfl⟩

/-- A text in front of which a piece begins. -/
def StartsPiece (before : Str) : Prop :=
  before = [] ∨ ∃ p, before = p ++ [';'] ∨ before = p ++ ['|'] ∨
    (before = p ++ ['&', '&'] ∧ p.getLast? ≠ some '&')

theorem pieces_of_startsPiece {before : Str} (t : Str) (h : StartsPiece before) :
    ∃ ps, pieces (before ++ t) = ps ++ pieces t := by
  obtain rfl | ⟨p, rfl | rfl | ⟨rfl, hp⟩⟩ := h
  · exact ⟨[], rfl⟩
  · obtain ⟨ps, q, hq⟩ := pieces_append p (';' :: t) (by simp)
    refine ⟨ps ++ [q], ?_⟩
    rw [List.append_assoc, List.singleton_append, hq]
    simp [pieces]
  · obtain ⟨ps, q, hq⟩ := pieces_append p ('|' :: t) (by simp)
    refine ⟨ps ++ [q], ?_⟩
    rw [List.append_assoc, List.singleton_append, hq]
    simp [pieces]
  · obtain ⟨ps, q, hq⟩ := pieces_append p ('&' :: '&' :: t) (fun hl => absurd hl hp)
    refine ⟨ps ++ [q], ?_⟩
    rw [List.append_assoc, List.cons_append, List.cons_append, List.nil_append, hq]
    simp [pieces]

/-- What may follow a word: the end of the text, a blank or a separator. -/
def EndsWord (t : Str) : Prop :=
  (∀ c ∈ t.head?, isWhitespace c = true) ∨ t.head? = some ';' ∨ t.head? = some '|' ∨
    ['&', '&'] <+: t

/-- A command name stands plainly in a text: where a piece begins, past blanks,
as a word of its own in which nothing is quoted. -/
def Plain (text name : Str) : Prop :=
  ∃ before bs t, text = before ++ (bs ++ (name ++ t)) ∧ StartsPiece before ∧
    (∀ c ∈ bs, isWhitespace c = true) ∧
    (∀ c ∈ name, isWhitespace c = false ∧ c ∉ [';', '|', '&', '\\']) ∧
    baseName name ≠ [] ∧ EndsWord t

theorem pieces_of_endsWord {t : Str} (h : EndsWord t) :
    ∃ p ps, pieces t = p :: ps ∧ ∀ c ∈ p.head?, isWhitespace c = true := by
  have hfirst : ∀ s, ∃ p ps, pieces s = p :: ps := by
    intro s
    rcases earliestSeparator_cuts s with ⟨-, hp⟩ | ⟨seg, sep, s', extra, -, -, -, hp, -⟩
    · exact ⟨s, [], hp⟩
    · exact ⟨seg, _, hp⟩
  obtain hw | hs | hs | ⟨s, rfl⟩ := h
  · cases t with
    | nil => exact ⟨[], [], rfl, by simp⟩
    | cons c s =>
      have hc : isWhitespace c = true := hw c rfl
      obtain ⟨p, ps, hp⟩ := hfirst s
      refine ⟨c :: p, ps, ?_, by simpa using hc⟩
      have : pieces (c :: s) = [c].foldr consHead (pieces s) := by
        refine pieces_append_word (u := [c]) s ?_
        intro d hd
        obtain rfl : d = c := by simpa using hd
        refine ⟨?_, ?_, ?_⟩ <;> (rintro rfl; revert hc; decide)
      rw [this, hp]
      rfl
  · obtain ⟨s, rfl⟩ := List.head?_eq_some_iff.mp hs
    exact ⟨[], pieces s, by simp [pieces], by simp⟩
  · obtain ⟨s, rfl⟩ := List.head?_eq_some_iff.mp hs
    exact ⟨[], pieces s, by simp [pieces], by simp⟩
  · exact ⟨[], pieces s, rfl, by simp⟩

theorem spelled_of_plain {text name : Str} (h : Plain text name) :
    Spelled text (baseName name) := by
  obtain ⟨before, bs, t, rfl, hb, hbs, hname, hbase, ht⟩ := h
  refine ⟨hbase, ?_⟩
  obtain ⟨ps, hps⟩ := pieces_of_startsPiece (bs ++ (name ++ t)) hb
  obtain ⟨p, qs, hp, hhead⟩ := pieces_of_endsWord ht
  have hword : pieces (bs ++ (name ++ t)) = (bs ++ name).foldr consHead (pieces t) := by
    rw [← List.append_assoc]
    refine pieces_append_word t ?_
    intro c hc
    rcases List.mem_append.mp hc with hc | hc
    · have hw := hbs c hc
      refine ⟨?_, ?_, ?_⟩ <;> (rintro rfl; revert hw; decide)
    · have hn := (hname c hc).2
      refine ⟨?_, ?_, ?_⟩ <;> (rintro rfl; exact hn (by decide))
  refine ⟨bs ++ (name ++ p), ?_, ?_⟩
  · rw [hps, hword, hp, foldr_consHead_cons, List.append_assoc]
    simp
  · have hne : name ≠ [] := by
      rintro rfl
      exact hbase (by decide)
    unfold extractBaseCommand
    rw [firstWord_trim hbs hne (fun c hc => (hname c hc).1) hhead]
    apply afterLast_eq_self
    intro hmem
    exact (hname _ (afterLast_subset '/' name hmem)).2 (by decide)

/-- The allowlist is sound for a command exactly when every name the shell
would run is spelled out where the extractor looks for commands. That is so
for the names that stand plainly in the command. -/
theorem validateCommandAllowlist_sound (command : Str) :
    ((∀ policy : ExecPolicy, policy.mode = .allowlist →
        validateCommandAllowlist command policy = some (.ok ()) →
        ∀ name ∈ commandNames command, isListed policy (baseName name) = true) ↔
      ∀ name ∈ commandNames command, Spelled command (baseName name)) ∧
    ∀ name, Plain command name → Spelled command (baseName name) := by
  refine ⟨⟨?_, ?_⟩, fun name => spelled_of_plain⟩
  · intro h name hname
    let policy : ExecPolicy :=
      { mode := .allowlist, safeBins := extractAllCommands command, allowedCommands := [] }
    have hok : validateCommandAllowlist command policy = some (.ok ()) := by
      rw [validateCommandAllowlist_ok_iff rfl]
      intro base hb
      simp [isListed, policy, hb]
    rw [← mem_extractAllCommands_iff]
    simpa [isListed, policy] using h policy rfl hok name hname
  · intro h policy hm hok name hname
    rw [validateCommandAllowlist_ok_iff hm] at hok
    exact hok _ (mem_extractAllCommands_iff.mpr (h name hname))

theorem validateCommandAllowlist_misses_newline :
    ¬ ∀ (command : Str) (policy : ExecPolicy), policy.mode = .allowlist →
      validateCommandAllowlist command policy = some (.ok ()) →
      ∀ name ∈ commandNames command, isListed policy (baseName name) = true := by
  intro h
  have := h "echo a\nrm b".toList ExecPolicy.default rfl (by decide) "rm".toList (by decide)
  revert this
  decide

end Clawreform.Runtime.SubprocessSandbox

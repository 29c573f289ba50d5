/-
# Fs.PathNames — the names that a walk takes from its path

`follow_path` of `kernel/fs/service/namei.c` character by character, with the names that it
looks up or takes for `.` or `..`.  It copies at most 63 characters of a component and goes
on where it stopped, so that a longer component is walked as several: the names are what
the slashes say exactly if the walk comes to none (`names_right_iff`).
-/
import Mathlib.Data.List.TakeWhile
import Minus.Fs.Vfs

namespace Minus.Fs.Dcache

set_option autoImplicit false

open Minus.Theory

/-! ## The walk, character by character -/

/-- The loop that fills `comp`, with room for so many characters. -/
def copyComp : Nat → List Char → Name × List Char
  | 0, p => ([], p)
  | _ + 1, [] => ([], [])
  | room + 1, ch :: p =>
      if ch = '/' then ([], ch :: p)
      else
        let (comp, p) := copyComp room p
        (ch :: comp, p)

def skipSlashes (p : List Char) : List Char := p.dropWhile (· = '/')

/-- The walk has come to a directory. -/
def AtDirectory (c : Cache) (d : Id) : Prop := d ∈ c.live ∧ ∃ inode, (c.dentries d).dInode = some inode ∧ inode.isDir = true

instance (c : Cache) (d : Id) : Decidable (AtDirectory c d) :=
  match same : (c.dentries d).dInode with
  | none => isFalse fun at_ => by
      obtain ⟨-, inode, there, -⟩ := at_
      cases same.symm.trans there
  | some inode => decidable_of_iff (d ∈ c.live ∧ inode.isDir = true) <| and_congr_right fun _ => by
      rw [same]
      exact ⟨fun dir => ⟨inode, rfl, dir⟩, fun ⟨_, there, dir⟩ => Option.some.inj there ▸ dir⟩

section Walk

variable (env : Env)

abbrev Place := Cache × Except Errno (Id × Vfsmount)

/-- The outer loop from `p` on, with the names that it interprets; each round consumes
characters. -/
def walkFrom : Nat → Cache → Id → Vfsmount → List Char → List Name × Except Fault Place
  | _, c, d, mnt, [] => ([], .ok (c, .ok (d, mnt)))
  | 0, _, _, _, _ :: _ => ([], .error .endless)
  | fuel + 1, c, d, mnt, ch :: p =>
      let (comp, p) := copyComp 63 (ch :: p)
      let p := skipSlashes p
      if comp = [] then walkFrom fuel c d mnt p
      else
        let named := if AtDirectory c d then [comp] else []
        match followStep env c d mnt comp with
        | .ok (c, .ok (d, mnt)) =>
            let (names, out) := walkFrom fuel c d mnt p
            (named ++ names, out)
        | .ok (c, .error e) => (named, .ok (c, .error e))
        | .error fault => (named, .error fault)

/-- `follow_path`. -/
def walkPath (ctx : Context) (c : Cache) (path : List Char) : List Name × Except Fault Place :=
  match ctx.start path with
  | none => ([], .ok (c, .error .enoent))
  | some (d, mnt) =>
      match dget c d with
      | .ok c => walkFrom env path.length c d mnt (skipSlashes path)
      | .error fault => ([], .error fault)

/-- The names of a walk along given components. -/
def followNames (c : Cache) (d : Id) (mnt : Vfsmount) : List Name → List Name
  | [] => []
  | comp :: rest =>
      (if AtDirectory c d then [comp] else []) ++
        match followStep env c d mnt comp with
        | .ok (c, .ok (d, mnt)) => followNames c d mnt rest
        | _ => []

end Walk

/-! ## What the slashes say -/

/-- The substrings without a slash that are not empty and reach from slash to slash. -/
def words (path : List Char) : List Name := (path.splitOn '/').filter (· ≠ [])

/-- The walk interprets the words of the path one after the other, all of them if it succeeds,
and does not succeed if one is longer than 63 characters; such a one it never
interprets. -/
structure NamesRight (path : List Char) (names : List Name) (out : Except Fault Place) : Prop where
  inOrder : names <+: words path
  all : ∀ c r, out = .ok (c, .ok r) → names = words path
  rejected : ∀ c r, out = .ok (c, .ok r) → ∀ w ∈ words path, w.length ≤ 63
  short : ∀ w ∈ names, w.length ≤ 63

/-- The walk comes to a directory in front of the first component that is longer than 63
characters. -/
def ComesToLong (env : Env) (ctx : Context) (c : Cache) (path : List Char) : Prop :=
  ∃ before w after, words path = before ++ w :: after ∧ (∀ x ∈ before, x.length ≤ 63) ∧ 63 < w.length ∧
    ∃ d mnt c₀ c' d' mnt', ctx.start path = some (d, mnt) ∧ dget c d = .ok c₀ ∧
      followLoop env c₀ d mnt before = .ok (c', .ok (d', mnt')) ∧ AtDirectory c' d'

section Words

variable {comp rest : Name} {p : List Char}

/-- A component if there is one. -/
def nonempty (comp : Name) : List Name := if comp = [] then [] else [comp]

theorem not_slash (free : '/' ∉ comp) : ∀ x ∈ comp, (x == '/') = false :=
  fun x inside => by simpa using ne_of_mem_of_not_mem inside free

theorem words_slash (free : '/' ∉ comp) (p : List Char) : words (comp ++ '/' :: p) = nonempty comp ++ words p := by
  unfold words nonempty List.splitOn
  rw [List.splitOnP_append_cons_of_forall_mem (not_slash free) '/' rfl, List.filter_cons]
  by_cases empty : comp = []
  · simp [empty]
  · simp [empty]

theorem words_free (free : '/' ∉ comp) : words comp = nonempty comp := by
  unfold words nonempty List.splitOn
  rw [List.splitOnP_eq_singleton (not_slash free)]
  by_cases empty : comp = []
  · simp [empty]
  · simp [empty]

theorem words_skip (p : List Char) : words (skipSlashes p) = words p := by
  induction p with
  | nil => rfl
  | cons ch p ih =>
      unfold skipSlashes at ih ⊢
      by_cases slash : ch = '/'
      · rw [List.dropWhile_cons_of_pos (by simp [slash]), ih, slash]
        exact (words_slash List.not_mem_nil p).symm
      · rw [List.dropWhile_cons_of_neg (by simp [slash])]

/-- The word that a path starts with. -/
theorem words_append (free : '/' ∉ comp) (ends : rest = [] ∨ ∃ r, rest = '/' :: r) :
    words (comp ++ rest) = nonempty comp ++ words (skipSlashes rest) := by
  rw [words_skip]
  rcases ends with rfl | ⟨r, rfl⟩
  · rw [List.append_nil, words_free free]
    exact (List.append_nil _).symm
  · rw [words_slash free]
    exact congrArg (nonempty comp ++ ·) (@words_slash [] List.not_mem_nil r).symm

theorem dropWhile_cases (p : Char → Bool) (l : List Char) :
    l.dropWhile p = [] ∨ ∃ x t, l.dropWhile p = x :: t ∧ p x = false := by
  induction l with
  | nil => exact .inl rfl
  | cons x l ih =>
      cases here : p x with
      | true => rwa [List.dropWhile_cons_of_pos here]
      | false => exact .inr ⟨x, l, List.dropWhile_cons_of_neg (by simp [here]), here⟩

/-- The same if the word goes on behind `comp`. -/
theorem words_longer (free : '/' ∉ comp) {ch : Char} (goes : ch ≠ '/') (r : List Char) :
    ∃ w after, words (comp ++ ch :: r) = w :: after ∧ comp.length < w.length ∧ w.take comp.length = comp := by
  have parts := List.takeWhile_append_dropWhile (p := (· ≠ '/')) (l := r)
  have ends : r.dropWhile (· ≠ '/') = [] ∨ ∃ t, r.dropWhile (· ≠ '/') = '/' :: t := by
    rcases dropWhile_cases (· ≠ '/') r with done | ⟨x, t, behind, slash⟩
    · exact .inl done
    · have same : x = '/' := by simpa using slash
      exact .inr ⟨t, same ▸ behind⟩
  have free' : '/' ∉ comp ++ ch :: r.takeWhile (· ≠ '/') := by
    intro inside
    rcases List.mem_append.1 inside with inside | inside
    · exact free inside
    · rcases List.mem_cons.1 inside with same | inside
      · exact goes same.symm
      · simpa using List.mem_takeWhile_imp inside
  refine ⟨comp ++ ch :: r.takeWhile (· ≠ '/'), words (skipSlashes (r.dropWhile (· ≠ '/'))), ?_, ?_, List.take_left ..⟩
  · have whole := words_append free' ends
    rw [List.append_assoc, List.cons_append, parts] at whole
    rw [whole, nonempty, if_neg (by simp)]
    rfl
  · simp

end Words

section Copy

variable {comp rest : Name} {p : List Char} {room : Nat}

theorem copyComp_spec (copied : copyComp room p = (comp, rest)) : p = comp ++ rest ∧ '/' ∉ comp ∧ comp.length ≤ room ∧
    (comp.length < room → rest = [] ∨ ∃ r, rest = '/' :: r) := by
  induction room generalizing p comp rest with
  | zero =>
      cases copied
      exact ⟨rfl, List.not_mem_nil, le_rfl, fun less => absurd less (Nat.lt_irrefl 0)⟩
  | succ room ih =>
      cases p with
      | nil =>
          cases copied
          exact ⟨rfl, List.not_mem_nil, Nat.zero_le _, fun _ => .inl rfl⟩
      | cons ch p =>
          rw [copyComp] at copied
          split at copied
          · rename_i slash
            cases copied
            exact ⟨rfl, List.not_mem_nil, Nat.zero_le _, fun _ => .inr ⟨p, by rw [slash]⟩⟩
          · rename_i goes
            cases next : copyComp room p with
            | mk comp' rest' =>
                rw [next] at copied
                cases copied
                obtain ⟨whole, free, few, ends⟩ := ih next
                refine ⟨by rw [whole]; rfl, ?_, Nat.succ_le_succ few, fun less => ends (Nat.lt_of_succ_lt_succ less)⟩
                intro inside
                rcases List.mem_cons.1 inside with same | inside
                · exact goes same.symm
                · exact free inside

theorem components_skip (p : List Char) : components (skipSlashes p) = components p := by
  induction p with
  | nil => rfl
  | cons ch p ih =>
      unfold skipSlashes components at ih ⊢
      by_cases slash : ch = '/'
      · rw [List.dropWhile_cons_of_pos (by simp [slash]), ih, componentsFrom, if_pos slash]
        rfl
      · rw [List.dropWhile_cons_of_neg (by simp [slash])]

/-- A round of the outer loop takes the next component. -/
theorem componentsFrom_copy {done : Name} (room_ : done.length + room = 63) (copied : copyComp room p = (comp, rest)) :
    componentsFrom done p = nonempty (done ++ comp) ++ components (skipSlashes rest) := by
  rw [components_skip]
  induction room generalizing p comp done rest with
  | zero =>
      cases copied
      have some_ : done ≠ [] := by
        rintro rfl
        cases room_
      rw [List.append_nil]
      cases rest with
      | nil => exact (List.append_nil _).symm
      | cons ch p =>
          unfold components nonempty
          by_cases slash : ch = '/'
          · simp only [componentsFrom, if_pos slash, if_true, List.nil_append]
          · have full : done.length = 63 := room_
            simp only [componentsFrom, if_neg slash, if_pos full, if_neg some_, List.length_nil, List.nil_append]
            rfl
  | succ room ih =>
      cases p with
      | nil =>
          cases copied
          rw [List.append_nil]
          exact (List.append_nil _).symm
      | cons ch p =>
          rw [copyComp] at copied
          split at copied
          · rename_i slash
            cases copied
            unfold components
            simp only [componentsFrom, if_pos slash, if_true, List.nil_append, List.append_nil]
            rfl
          · rename_i goes
            cases next : copyComp room p with
            | mk comp' rest' =>
                rw [next] at copied
                cases copied
                have room' : (done ++ [ch]).length + room = 63 := by simp; omega
                have more := ih room' next
                rw [componentsFrom, if_neg goes, if_neg (by omega), more, List.append_assoc]
                rfl

theorem components_copy (copied : copyComp 63 p = (comp, rest)) :
    components p = nonempty comp ++ components (skipSlashes rest) :=
  componentsFrom_copy rfl copied

theorem length_skip (p : List Char) : (skipSlashes p).length ≤ p.length := List.length_dropWhile_le _ p

/-- The rest of the path is shorter. -/
theorem copyComp_shorter {ch : Char} (copied : copyComp 63 (ch :: p) = (comp, rest)) :
    (skipSlashes rest).length ≤ p.length := by
  obtain ⟨whole, -, -, ends⟩ := copyComp_spec copied
  have length := congrArg List.length whole
  rw [List.length_cons, List.length_append] at length
  have skip := length_skip rest
  cases comp with
  | cons x comp =>
      rw [List.length_cons] at length
      omega
  | nil =>
      rcases ends (by decide) with rfl | ⟨r, rfl⟩
      · cases whole
      · have less : (skipSlashes ('/' :: r)).length ≤ r.length := by
          unfold skipSlashes
          rw [List.dropWhile_cons_of_pos (by simp)]
          exact length_skip r
        rw [List.length_cons] at length
        omega

/-- **The components are the words up to the first one that is too long**, of which they have
the first 63 characters. -/
theorem components_words (n : Nat) : ∀ p : List Char, p.length ≤ n →
    (components p = words p ∧ ∀ w ∈ words p, w.length ≤ 63) ∨
      ∃ before w after rest, words p = before ++ w :: after ∧ (∀ x ∈ before, x.length ≤ 63) ∧ 63 < w.length ∧
        components p = before ++ w.take 63 :: rest := by
  induction n with
  | zero =>
      intro p short
      rw [List.length_eq_zero_iff.1 (Nat.le_zero.1 short)]
      exact .inl ⟨rfl, fun w inside => absurd inside (List.not_mem_nil (a := w))⟩
  | succ n ih =>
      intro p short
      cases p with
      | nil => exact .inl ⟨rfl, fun w inside => absurd inside (List.not_mem_nil (a := w))⟩
      | cons ch p =>
          cases copied : copyComp 63 (ch :: p) with
          | mk comp rest =>
              have less : (skipSlashes rest).length ≤ n := (copyComp_shorter copied).trans (Nat.le_of_succ_le_succ short)
              have comps := components_copy copied
              obtain ⟨whole, free, few, ends⟩ := copyComp_spec copied
              by_cases stops : rest = [] ∨ ∃ r, rest = '/' :: r
              · have word := words_append free stops
                rw [← whole] at word
                have small : ∀ x ∈ nonempty comp, x.length ≤ 63 := by
                  intro x inside
                  unfold nonempty at inside
                  split at inside
                  · cases inside
                  · rw [List.mem_singleton.1 inside]
                    exact few
                rcases ih _ less with ⟨same, all⟩ | ⟨before, w, after, tail, split_, smalls, long, same⟩
                · rw [comps, word, same]
                  refine .inl ⟨rfl, fun x inside => ?_⟩
                  exact (List.mem_append.1 inside).elim (small x) (all x)
                · refine .inr ⟨nonempty comp ++ before, w, after, tail, ?_, fun x inside => ?_, long, ?_⟩
                  · rw [word, split_, List.append_assoc]
                  · exact (List.mem_append.1 inside).elim (small x) (smalls x)
                  · rw [comps, same, List.append_assoc]
              · have full : comp.length = 63 := by
                  by_contra less
                  exact stops (ends (lt_of_le_of_ne few less))
                cases rest with
                | nil => exact absurd (.inl rfl) stops
                | cons x r =>
                    have goes : x ≠ '/' := fun same => stops (.inr ⟨r, by rw [same]⟩)
                    obtain ⟨w, after, split_, long, starts⟩ := words_longer free goes r
                    rw [← whole] at split_
                    rw [full] at long starts
                    have some_ : comp ≠ [] := by
                      rintro rfl
                      cases full
                    refine .inr ⟨[], w, after, components (skipSlashes (x :: r)), split_, nofun, long, ?_⟩
                    rw [comps, starts, nonempty, if_neg some_]
                    rfl

end Copy

/-! ## The walk along the words -/

section Follow

variable {env : Env} {ctx : Context} {c c' : Cache} {d d' : Id} {mnt mnt' : Vfsmount}

/-- Character by character or component by component, it is the same walk. -/
theorem walkFrom_eq : ∀ {fuel : Nat} {p : List Char} {c : Cache} {d : Id} {mnt : Vfsmount}, p.length ≤ fuel →
    walkFrom env fuel c d mnt p = (followNames env c d mnt (components p), followLoop env c d mnt (components p)) := by
  intro fuel
  induction fuel with
  | zero =>
      intro p c d mnt short
      rw [List.length_eq_zero_iff.1 (Nat.le_zero.1 short)]
      rfl
  | succ fuel ih =>
      intro p c d mnt short
      cases p with
      | nil => rfl
      | cons ch p =>
          cases copied : copyComp 63 (ch :: p) with
          | mk comp rest =>
              have less : (skipSlashes rest).length ≤ fuel := (copyComp_shorter copied).trans (Nat.le_of_succ_le_succ short)
              rw [components_copy copied, walkFrom, copied]
              dsimp only
              unfold nonempty
              split
              · rw [ih less]
                rfl
              · show _ = (followNames env c d mnt (comp :: _), followLoop env c d mnt (comp :: _))
                rw [followNames, followLoop]
                cases step : followStep env c d mnt comp with
                | error fault =>
                    dsimp only
                    rw [List.append_nil]
                    rfl
                | ok out =>
                    obtain ⟨c₁, r⟩ := out
                    cases r with
                    | error e =>
                        dsimp only
                        rw [List.append_nil]
                        rfl
                    | ok place =>
                        dsimp only
                        rw [ih less]
                        rfl

/-- **The walk of the character loop** is that of `followPath`. -/
theorem walkPath_out (env : Env) (ctx : Context) (c : Cache) (path : List Char) :
    (walkPath env ctx c path).2 = followPath env ctx c path := by
  unfold walkPath followPath
  cases ctx.start path with
  | none => rfl
  | some place =>
      obtain ⟨d, mnt⟩ := place
      cases got : dget c d with
      | error fault =>
          dsimp only
          rw [got]
          rfl
      | ok c₀ =>
          dsimp only
          rw [got]
          dsimp only
          rw [walkFrom_eq (length_skip path), components_skip]
          rfl

/-- A step that goes on was at a directory. -/
theorem followStep_at {comp : Name} {c' : Cache} {r : Id × Vfsmount} (step : followStep env c d mnt comp = .ok (c', .ok r)) :
    AtDirectory c d := by
  unfold followStep at step
  obtain ⟨_, touched, step⟩ := bind_eq_ok.1 step
  have live : d ∈ c.live := by
    unfold touch at touched
    split at touched
    · assumption
    · cases touched
  cases inode : (c.dentries d).dInode with
  | none =>
      rw [inode] at step
      cases step
  | some i =>
      rw [inode] at step
      dsimp only at step
      cases dir : i.isDir with
      | true => exact ⟨live, i, inode, dir⟩
      | false =>
          rw [dir] at step
          obtain ⟨c₁, -, never⟩ := bind_eq_ok.1 step
          cases never

/-- The names of a walk, and how it ends, are those of the components in front and then of the
rest. -/
theorem follow_append (env : Env) (before after : List Name) (c : Cache) (d : Id) (mnt : Vfsmount) :
    (∃ c' d' mnt', followLoop env c d mnt before = .ok (c', .ok (d', mnt')) ∧
      followNames env c d mnt (before ++ after) = before ++ followNames env c' d' mnt' after ∧
      followLoop env c d mnt (before ++ after) = followLoop env c' d' mnt' after) ∨
    (∀ c' r, followLoop env c d mnt before ≠ .ok (c', .ok r)) ∧
      followNames env c d mnt (before ++ after) <+: before ∧
      followLoop env c d mnt (before ++ after) = followLoop env c d mnt before := by
  induction before generalizing c d mnt with
  | nil => exact .inl ⟨c, d, mnt, rfl, rfl, rfl⟩
  | cons comp before ih =>
      rw [List.cons_append, followNames, followLoop, followLoop]
      have named : (if AtDirectory c d then [comp] else []) <+: comp :: before := by
        split
        · exact List.cons_prefix_cons.2 ⟨rfl, List.nil_prefix⟩
        · exact List.nil_prefix
      cases step : followStep env c d mnt comp with
      | error fault =>
          refine .inr ⟨nofun, ?_, rfl⟩
          dsimp only
          rwa [List.append_nil]
      | ok out =>
          obtain ⟨c₁, r⟩ := out
          cases r with
          | error e =>
              refine .inr ⟨nofun, ?_, rfl⟩
              dsimp only
              rwa [List.append_nil]
          | ok place =>
              obtain ⟨d₁, mnt₁⟩ := place
              rw [if_pos (followStep_at step)]
              dsimp only
              obtain ⟨c', d', mnt', run, names, out⟩ | ⟨stops, names, out⟩ := ih c₁ d₁ mnt₁
              · refine .inl ⟨c', d', mnt', run, ?_, out⟩
                rw [names]
                rfl
              · exact .inr ⟨stops, List.cons_prefix_cons.2 ⟨rfl, names⟩, out⟩

variable (env mnt) in
/-- A component that the walk does not come to at a directory it does not interpret. -/
theorem followNames_stop (comp : Name) (rest : List Name) (stops : ¬ AtDirectory c d) :
    followNames env c d mnt (comp :: rest) = [] ∧ ∀ c' r, followLoop env c d mnt (comp :: rest) ≠ .ok (c', .ok r) := by
  have step : ∀ c₁ place, followStep env c d mnt comp ≠ .ok (c₁, .ok place) := fun _ _ step => stops (followStep_at step)
  rw [followNames, followLoop, if_neg stops, List.nil_append]
  cases there : followStep env c d mnt comp with
  | error fault => exact ⟨rfl, nofun⟩
  | ok out =>
      obtain ⟨c₁, r⟩ := out
      cases r with
      | error e => exact ⟨rfl, nofun⟩
      | ok place => exact absurd there (step c₁ place)

/-- The first long word parts the words in one way. -/
theorem first_long {before before' after after' : List Name} {w w' : Name}
    (same : before ++ w :: after = before' ++ w' :: after') (small : ∀ x ∈ before, x.length ≤ 63) (long : 63 < w.length)
    (small' : ∀ x ∈ before', x.length ≤ 63) (long' : 63 < w'.length) : before = before' ∧ w = w' := by
  have cut {b a : List Name} {v : Name} (small : ∀ x ∈ b, x.length ≤ 63) (long : 63 < v.length) :
      (b ++ v :: a).takeWhile (fun x => decide (x.length ≤ 63)) = b := by
    rw [List.takeWhile_append_of_pos fun x inside => decide_eq_true (small x inside),
      List.takeWhile_cons_of_neg (by simpa using long), List.append_nil]
  have first : before = before' := by
    rw [← cut (a := after) small long, same, cut small' long']
  subst first
  exact ⟨rfl, (List.cons.inj (List.append_cancel_left same)).1⟩

theorem NamesRight.of_stop {path : List Char} {names : List Name} {out : Except Fault Place}
    (inOrder : names <+: words path) (short : ∀ w ∈ names, w.length ≤ 63) (stops : ∀ c r, out ≠ .ok (c, .ok r)) :
    NamesRight path names out :=
  ⟨inOrder, fun c r success => absurd success (stops c r), fun c r success => absurd success (stops c r), short⟩

/-- At a long word the walk interprets its first 63 characters. -/
theorem not_right {path : List Char} {before after : List Name} {w : Name} (split_ : words path = before ++ w :: after)
    (small : ∀ x ∈ before, x.length ≤ 63) (long : 63 < w.length)
    (run : followLoop env c d mnt before = .ok (c', .ok (d', mnt'))) (at_ : AtDirectory c' d') :
    ¬ followNames env c d mnt (components path) <+: words path := by
  intro inOrder
  rcases components_words _ path le_rfl with ⟨-, all⟩ | ⟨before', w', after', rest, split', small', long', comps⟩
  · exact absurd (all w (by rw [split_]; simp)) (Nat.not_le.2 long)
  · obtain ⟨rfl, rfl⟩ := first_long (split_.symm.trans split') small long small' long'
    rw [comps] at inOrder
    obtain ⟨c₁, d₁, mnt₁, run₁, names, -⟩ | ⟨stops, -⟩ := follow_append env before (w.take 63 :: rest) c d mnt
    · cases run.symm.trans run₁
      rw [names, split_, followNames, if_pos at_] at inOrder
      have same := (List.cons_prefix_cons.1 ((List.prefix_append_right_inj before).1 inOrder)).1
      have length := congrArg List.length same
      rw [List.length_take] at length
      omega
    · exact stops _ _ run

/-- A walk that comes to no long word. -/
theorem right_of_spared {path : List Char} (spared : ∀ before w after, words path = before ++ w :: after →
      (∀ x ∈ before, x.length ≤ 63) → 63 < w.length → ∀ c' d' mnt',
        followLoop env c d mnt before = .ok (c', .ok (d', mnt')) → ¬ AtDirectory c' d') :
    NamesRight path (followNames env c d mnt (components path)) (followLoop env c d mnt (components path)) := by
  rcases components_words _ path le_rfl with ⟨same, all⟩ | ⟨before, w, after, rest, split_, small, long, comps⟩
  · rw [same]
    obtain ⟨c', d', mnt', run, names, -⟩ | ⟨stops, names, -⟩ := follow_append env (words path) [] c d mnt
    · rw [List.append_nil, followNames, List.append_nil] at names
      rw [names]
      exact ⟨List.prefix_rfl, fun _ _ _ => rfl, fun _ _ _ => all, all⟩
    · rw [List.append_nil] at names
      exact .of_stop names (fun x inside => all x (names.subset inside)) stops
  · have front : before <+: words path := ⟨w :: after, split_.symm⟩
    rw [comps]
    obtain ⟨c', d', mnt', run, names, out⟩ | ⟨stops, names, out⟩ := follow_append env before (w.take 63 :: rest) c d mnt
    · obtain ⟨none_, stops⟩ := followNames_stop env mnt' (w.take 63) rest
        (spared before w after split_ small long c' d' mnt' run)
      rw [names, none_, out, List.append_nil]
      exact .of_stop front small stops
    · rw [out]
      exact .of_stop (names.trans front) (fun x inside => small x (names.subset inside)) stops

/-- **When the names are what the slashes say.**  For every path, cache and environment, the
walk interprets the non-empty words of its path in their order, and rejects one that is
longer than 63 characters, exactly if it comes to no such word. -/
theorem names_right_iff (env : Env) (ctx : Context) (c : Cache) (path : List Char) :
    NamesRight path (walkPath env ctx c path).1 (walkPath env ctx c path).2 ↔ ¬ ComesToLong env ctx c path := by
  unfold walkPath
  cases start : ctx.start path with
  | none =>
      refine iff_of_true (.of_stop List.nil_prefix nofun nofun) ?_
      rintro ⟨-, -, -, -, -, -, d, mnt, -, -, -, -, started, -⟩
      cases start.symm.trans started
  | some place =>
      obtain ⟨d, mnt⟩ := place
      dsimp only
      cases got : dget c d with
      | error fault =>
          refine iff_of_true (.of_stop List.nil_prefix nofun nofun) ?_
          rintro ⟨-, -, -, -, -, -, d', mnt', c₀, -, -, -, started, got', -⟩
          cases start.symm.trans started
          cases got.symm.trans got'
      | ok c₀ =>
          dsimp only
          rw [walkFrom_eq (length_skip path), components_skip]
          constructor
          · rintro right ⟨before, w, after, split_, small, long, d₁, mnt₁, c₁, c', d', mnt', started, got', run, at_⟩
            cases start.symm.trans started
            cases got.symm.trans got'
            exact not_right split_ small long run at_ right.inOrder
          · intro spared
            refine right_of_spared fun before w after split_ small long c' d' mnt' run at_ => spared ?_
            exact ⟨before, w, after, split_, small, long, d, mnt, c₀, c', d', mnt', start, got, run, at_⟩

end Follow

/-! ## A name of 64 characters -/

/-- The root directory alone. -/
def rootAlone : Cache := ⟨⟨id, id⟩, fun d => ⟨d, some ⟨2, true⟩, none, ['/'], 1⟩, [0], 0⟩

def rootContext : Context := ⟨some ⟨0, 0, none⟩, none⟩

/-- Every name is that of a directory. -/
def anyDirectory : Env where
  alloc _ live := (List.range (live.length + 1)).find? (· ∉ live)
  lookup _ _ := .ok (some ⟨3, true⟩)
  fresh := firstFree_fresh

def longPath : List Char := '/' :: List.replicate 64 'a'

/-- It is walked as a directory of 63 characters and a name in it, and found. -/
theorem longPath_parted : words longPath = [List.replicate 64 'a'] ∧
    (walkPath anyDirectory rootContext rootAlone longPath).1 = [List.replicate 63 'a', ['a']] ∧
    (∃ c r, (walkPath anyDirectory rootContext rootAlone longPath).2 = .ok (c, .ok r)) ∧
    ¬ NamesRight longPath (walkPath anyDirectory rootContext rootAlone longPath).1
      (walkPath anyDirectory rootContext rootAlone longPath).2 := by
  have word : words longPath = [List.replicate 64 'a'] := by decide
  have names : (walkPath anyDirectory rootContext rootAlone longPath).1 = [List.replicate 63 'a', ['a']] := by
    decide +kernel
  refine ⟨word, names, ⟨_, _, rfl⟩, fun right => ?_⟩
  have inOrder := right.inOrder
  rw [word, names] at inOrder
  exact absurd inOrder (by decide)

end Minus.Fs.Dcache

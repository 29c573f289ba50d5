/-
# Scripts.Kconfig — the configuration of the kernel

`resolve`, `write_config`, `write_autoconf` and the two commands of `scripts/kconfig.py`,
over the symbols that a Kconfig file declares.  A file is the list of its lines, a
string the list of its characters; which characters outside ASCII are word characters
(`\w`) is a parameter.

A symbol that has no value is written as a comment, which the next run does not read, so
`syncconfig` offers its defaults again, this time with the values of every symbol at hand.
The second run changes nothing exactly where the first has left nothing to do (`Settled`).
-/
import Mathlib.Data.List.DropRight
import Mathlib.Data.List.Infix
import Minus.Theory.Defaults

namespace Minus.Scripts.Kconfig

set_option autoImplicit false

open Minus.Theory

abbrev Text := List Char

/-- `str.isspace`. -/
def isSpace (c : Char) : Bool :=
  (9 ≤ c.toNat && c.toNat ≤ 13) || (0x1c ≤ c.toNat && c.toNat ≤ 0x20) || (0x2000 ≤ c.toNat && c.toNat ≤ 0x200a) ||
    [0x85, 0xa0, 0x1680, 0x2028, 0x2029, 0x202f, 0x205f, 0x3000].contains c.toNat

/-- `str.strip`. -/
def strip (s : Text) : Text := (s.dropWhile isSpace).rdropWhile isSpace

def stripPrefix (lit : String) (s : Text) : Option Text :=
  if lit.toList <+: s then some (s.drop lit.toList.length) else none

/-- The values of the symbols that have one. -/
abbrev Values := Text → Option Text

/-- A symbol with its type and its defaults, each with its condition; a default without one has the empty string. -/
structure Config where
  name : Text
  type : Option Text
  defaults : List (Text × Text)

section Words

variable (unicodeWord : Char → Bool)

/-- `\w`. -/
def isWord (c : Char) : Bool :=
  if c.toNat < 128 then c.isAlphanum || c = '_' else unicodeWord c

/-- What `parse` makes of a file: the symbols, each once, in the order of their first declaration. -/
structure Symbols where
  configs : List Config
  distinct : (configs.map Config.name).Nodup
  words : ∀ cfg ∈ configs, cfg.name ≠ [] ∧ ∀ c ∈ cfg.name, isWord unicodeWord c
  solid : ∀ cfg ∈ configs, ∀ d ∈ cfg.defaults, ∀ c ∈ d.1, isSpace c = false

/-! ## eval_condition -/

/-- `_strip_config_prefix`. -/
def stripConfigPrefix (sym : Text) : Text := (stripPrefix "CONFIG_" sym).getD sym

/-- `expr.split('&&')`. -/
def splitAnd : Text → List Text
  | [] => [[]]
  | '&' :: '&' :: rest => [] :: splitAnd rest
  | c :: rest =>
      match splitAnd rest with
      | [] => [[c]]
      | part :: parts => (c :: part) :: parts

/-- `^(\w+)\s*(!?=)\s*"?([^"]*)"?$`: the symbol, whether the operator is `!=`, and the string. -/
def matchComparison (part : Text) : Option (Text × Bool × Text) :=
  let sym := part.takeWhile (isWord unicodeWord)
  let rest := (part.dropWhile (isWord unicodeWord)).dropWhile isSpace
  let negated := rest.head? = some '!'
  let rest := if negated then rest.drop 1 else rest
  if sym = [] ∨ rest.head? ≠ some '=' then none
  else
    let rest := (rest.drop 1).dropWhile isSpace
    let rest := if rest.head? = some '"' then rest.drop 1 else rest
    let behind := rest.dropWhile (· ≠ '"')
    if behind = [] ∨ behind = ['"'] then some (sym, negated, rest.takeWhile (· ≠ '"')) else none

/-- `actual[1:-1]` of a string in quotes. -/
def unquote (s : Text) : Text :=
  if s.head? = some '"' ∧ s.getLast? = some '"' then (s.drop 1).dropLast else s

/-- `val not in ('n', '0', '', 'false', 'no')`. -/
def active (val : Text) : Bool := val ∉ [['n'], ['0'], [], "false".toList, "no".toList]

/-- One part between `&&`, stripped. -/
def evalPart (values : Values) (part : Text) : Bool :=
  match matchComparison unicodeWord part with
  | some (sym, negated, expected) =>
      let actual := unquote ((values (stripConfigPrefix sym)).getD [])
      (actual == expected) != negated
  | none =>
      let negated := part.head? = some '!'
      let part := if negated then strip (part.drop 1) else part
      active ((values (stripConfigPrefix part)).getD ['n']) != negated

def evalCondition (expr : Text) (values : Values) : Bool :=
  let expr := expr.map fun c => if c = '(' ∨ c = ')' then ' ' else c
  ((splitAnd expr).map strip).all fun part => part = [] || evalPart unicodeWord values part

/-! ## resolve and write_config -/

/-- A line as `resolve` reads it: a symbol and its value. -/
def readLine (line : Text) : Option (Text × Text) :=
  let line := strip line
  if line = [] ∨ line.head? = some '#' then none
  else
    match stripPrefix "CONFIG_" line with
    | none => none
    | some rest =>
        let name := rest.takeWhile (isWord unicodeWord)
        let behind := rest.dropWhile (isWord unicodeWord)
        if name ≠ [] ∧ behind.head? = some '=' ∧ behind.drop 1 ≠ [] then some (name, behind.drop 1) else none

def readConfig (values : Values) : List Text → Values
  | [] => values
  | line :: rest =>
      match readLine unicodeWord line with
      | some (name, val) => readConfig (Function.update values name (some val)) rest
      | none => readConfig values rest

/-- The first default whose condition holds. -/
def defaultOf (cfg : Config) (values : Values) : Option Text :=
  (cfg.defaults.find? fun d => evalCondition unicodeWord d.2 values).map Prod.fst

/-- The loop over the symbols that are not set yet. -/
def applyDefaults (values : Values) : List Config → Values
  | [] => values
  | cfg :: rest =>
      if (values cfg.name).isSome then applyDefaults values rest
      else
        match defaultOf unicodeWord cfg values with
        | some val => applyDefaults (Function.update values cfg.name (some val)) rest
        | none => applyDefaults values rest

/-- `resolve`, on a file that may not exist. -/
def resolve (symbols : Symbols unicodeWord) (defconfig : Option (List Text)) : Values :=
  applyDefaults unicodeWord (readConfig unicodeWord (fun _ => none) (defconfig.getD [])) symbols.configs

def configLine (values : Values) (cfg : Config) : Text :=
  match values cfg.name with
  | some val => "CONFIG_".toList ++ cfg.name ++ '=' :: val
  | none => "# CONFIG_".toList ++ cfg.name ++ " is not set".toList

def writeConfig (configs : List Config) (values : Values) : List Text := configs.map (configLine values)

/-! ## write_autoconf -/

/-- `re.match(r'0[xX][0-9a-fA-F]+$', val)`. -/
def isHex (val : Text) : Bool :=
  match val with
  | '0' :: x :: digits => (x = 'x' || x = 'X') && digits ≠ [] &&
      digits.all fun c => c.isDigit || ('a' ≤ c && c ≤ 'f') || ('A' ≤ c && c ≤ 'F')
  | _ => false

/-- The type of the first entry with this name; `configs.get(name, {}).get('type')`. -/
def typeOf (configs : List Config) (name : Text) : Option Text := (configs.find? (·.name = name)).bind Config.type

/-- What a line of the `.config` adds to the header; `none` for the exceptions of `split`. -/
def autoconfLine (configs : List Config) (line : Text) : Option (List Text) :=
  let line := strip line
  if "# CONFIG_".toList <+: line ∧ "is not set".toList <:+: line then
    match ((line.drop 9).dropWhile isSpace).takeWhile (!isSpace ·) with
    | [] => none
    | name => some ["/* CONFIG_".toList ++ name ++ " is not set */".toList]
  else if "CONFIG_".toList <+: line then
    let name := (line.drop 7).takeWhile (· ≠ '=')
    match (line.drop 7).dropWhile (· ≠ '=') with
    | [] => none
    | _ :: val =>
        let define := "#define CONFIG_".toList ++ name
        some [if typeOf configs name = some "string".toList then define ++ " \"".toList ++ val ++ "\"".toList
          else if val = ['y'] then define ++ " 1".toList
          else if val = ['n'] then "/* CONFIG_".toList ++ name ++ " is not set */".toList
          else if isHex val then define ++ ' ' :: val ++ "ULL".toList
          else define ++ ' ' :: val]
  else some []

def writeAutoconf (configs : List Config) (config : List Text) : Option (List Text) := do
  let lines ← config.mapM (autoconfLine configs)
  return ["/* Automatically generated by scripts/kconfig.py; do not edit */".toList,
      "#ifndef __MINUS_AUTOCONF_H__".toList, "#define __MINUS_AUTOCONF_H__".toList, []] ++ lines.flatten ++
    [[], "#endif /* __MINUS_AUTOCONF_H__ */".toList]

/-- The commands: `defconfig` from a defconfig, `syncconfig` from the `.config`.  The `.config` and the header. -/
def generate (symbols : Symbols unicodeWord) (file : Option (List Text)) : List Text × Option (List Text) :=
  let config := writeConfig symbols.configs (resolve unicodeWord symbols file)
  (config, writeAutoconf symbols.configs config)

/-- `syncconfig` after `defconfig` gives each symbol the value that it has, and the same two files. -/
structure Stable (symbols : Symbols unicodeWord) (defconfig : Option (List Text)) : Prop where
  values : ∀ cfg ∈ symbols.configs,
    resolve unicodeWord symbols (some (generate unicodeWord symbols defconfig).1) cfg.name =
      resolve unicodeWord symbols defconfig cfg.name
  files : generate unicodeWord symbols (some (generate unicodeWord symbols defconfig).1) =
    generate unicodeWord symbols defconfig

/-- A symbol that the `.config` leaves without a value, or with an empty one, has a default for the values
in the `.config` only where that is the empty value it has. -/
def Settled (symbols : Symbols unicodeWord) (defconfig : Option (List Text)) : Prop :=
  let written := readConfig unicodeWord (fun _ => none) (generate unicodeWord symbols defconfig).1
  ∀ cfg ∈ symbols.configs, written cfg.name = none →
    defaultOf unicodeWord cfg written = resolve unicodeWord symbols defconfig cfg.name

/-! ## Conditions -/

section Conditions

variable {values values' : Values}

/-- A missing value is no more active than an empty one. -/
theorem active_getD (val : Option Text) : active (val.getD ['n']) = active (val.getD []) := by
  cases val <;> rfl

/-- A condition cannot tell a missing value from an empty one. -/
theorem evalCondition_alike (expr : Text) (alike : Alike [] values values') :
    evalCondition unicodeWord expr values = evalCondition unicodeWord expr values' := by
  have parts (part : Text) : evalPart unicodeWord values part = evalPart unicodeWord values' part := by
    simp only [evalPart, active_getD, alike _]
  simp only [evalCondition, parts]

theorem defaultOf_alike (cfg : Config) (alike : Alike [] values values') :
    defaultOf unicodeWord cfg values = defaultOf unicodeWord cfg values' := by
  simp only [defaultOf, evalCondition_alike unicodeWord _ alike]

theorem applyDefaults_eq_fill (configs : List Config) :
    applyDefaults unicodeWord values configs = fill Config.name (defaultOf unicodeWord) values configs := by
  induction configs generalizing values with
  | nil => rfl
  | cons cfg rest ih =>
      show _ = fill _ _ (offer _ _ values cfg) rest
      rw [applyDefaults, offer]
      cases set : values cfg.name with
      | some val => exact ih
      | none =>
          cases offered : defaultOf unicodeWord cfg values with
          | some val => exact ih
          | none =>
              have unchanged : Function.update values cfg.name none = values := by rw [← set, Function.update_eq_self]
              rw [if_neg (by simp), if_neg (by simp), unchanged]
              exact ih

end Conditions

/-! ## Lines -/

/-- What `strip` leaves as it is at the end. -/
def Ends (s : Text) : Prop := ∀ c ∈ s.getLast?, isSpace c = false

theorem strip_ends (s : Text) : Ends (strip s) := by
  intro c last
  by_cases empty : strip s = []
  · simp [empty] at last
  · have kept : ¬ isSpace ((strip s).getLast empty) := List.rdropWhile_last_not isSpace (s.dropWhile isSpace) empty
    rw [Option.mem_def, List.getLast?_eq_some_getLast empty, Option.some_inj] at last
    simpa [last] using kept

theorem strip_of_ends {c : Char} {s : Text} (first : isSpace c = false) (last : Ends (c :: s)) :
    strip (c :: s) = c :: s := by
  rw [strip, List.dropWhile_cons_of_neg (by simp [first]), List.rdropWhile_eq_self_iff]
  intro some_
  simp [last _ (List.getLast?_eq_some_getLast some_)]

theorem ends_append (s : Text) {t : Text} (some_ : t ≠ []) (ends : Ends t) : Ends (s ++ t) := by
  intro c last
  rw [List.getLast?_append_of_ne_nil s some_] at last
  exact ends c last

theorem ends_of_solid {s : Text} (solid : ∀ c ∈ s, isSpace c = false) : Ends s :=
  fun c last => solid c (List.mem_of_getLast? last)

/-- A value that is read is not empty and ends in no space. -/
theorem readLine_ends {line name val : Text} (read : readLine unicodeWord line = some (name, val)) : val ≠ [] ∧ Ends val := by
  simp only [readLine] at read
  split at read
  next => cases read
  next =>
    split at read
    next => cases read
    next rest start =>
      split at read
      next both =>
        obtain ⟨-, rfl⟩ := Prod.ext_iff.1 (Option.some.inj read)
        refine ⟨both.2.2, fun c last => ?_⟩
        have suffix_ : (rest.dropWhile (isWord unicodeWord)).drop 1 <:+ strip line := by
          have here : rest <:+ strip line := by
            rw [stripPrefix] at start
            split at start
            next => exact Option.some.inj start ▸ List.drop_suffix _ _
            next => cases start
          exact ((List.drop_suffix _ _).trans (List.dropWhile_suffix _)).trans here
        obtain ⟨before, whole⟩ := suffix_
        apply strip_ends line c
        rw [← whole, List.getLast?_append_of_ne_nil _ both.2.2]
        exact last
      next => cases read

theorem readConfig_ends {file : List Text} {values : Values} {name val : Text}
    (ends : ∀ name val, values name = some val → Ends val) (read : readConfig unicodeWord values file name = some val) :
    Ends val := by
  induction file generalizing values with
  | nil => exact ends name val read
  | cons line rest ih =>
      cases found : readLine unicodeWord line with
      | none =>
          simp only [readConfig, found] at read
          exact ih ends read
      | some pair =>
          obtain ⟨name', val'⟩ := pair
          simp only [readConfig, found] at read
          apply ih _ read
          intro sym v set
          by_cases same : sym = name'
          · subst same
            rw [Function.update_self, Option.some_inj] at set
            exact set ▸ (readLine_ends unicodeWord found).2
          · rw [Function.update_of_ne same] at set
            exact ends sym v set

theorem resolve_ends (symbols : Symbols unicodeWord) {file : Option (List Text)} {name val : Text}
    (set : resolve unicodeWord symbols file name = some val) : Ends val := by
  rw [resolve, applyDefaults_eq_fill] at set
  obtain read | ⟨cfg, member, values, offered⟩ := fill_source set
  · exact readConfig_ends unicodeWord (by simp) read
  · obtain ⟨d, found, rfl⟩ := Option.map_eq_some_iff.1 offered
    exact ends_of_solid (symbols.solid cfg member d (List.mem_of_find?_eq_some found))

section Written

variable {values : Values} {cfg : Config}

/-- A line of the `.config` is read as the value that it was written for, unless that is empty. -/
theorem readLine_configLine (words : cfg.name ≠ [] ∧ ∀ c ∈ cfg.name, isWord unicodeWord c)
    (ends : ∀ val, values cfg.name = some val → Ends val) :
    readLine unicodeWord (configLine values cfg) = ((values cfg.name).filter (· ≠ [])).map fun val => (cfg.name, val) := by
  cases set : values cfg.name with
  | none =>
      have line : configLine values cfg = '#' :: (" CONFIG_".toList ++ cfg.name ++ " is not set".toList) := by
        simp [configLine, set]
      have ends : Ends ('#' :: (" CONFIG_".toList ++ cfg.name ++ " is not set".toList)) :=
        ends_append ('#' :: (" CONFIG_".toList ++ cfg.name)) (by decide) (by simp [Ends, isSpace])
      simp only [readLine, line, strip_of_ends (by decide) ends]
      simp
  | some val =>
      have line : configLine values cfg = 'C' :: ("ONFIG_".toList ++ cfg.name ++ '=' :: val) := by
        simp [configLine, set]
      have ends : Ends ('C' :: ("ONFIG_".toList ++ cfg.name ++ '=' :: val)) := by
        apply ends_append ('C' :: ("ONFIG_".toList ++ cfg.name)) (by simp)
        cases val with
        | nil => simp [Ends, isSpace]
        | cons v val => exact ends_append ['='] (by simp) (ends _ set)
      have name : (cfg.name ++ '=' :: val).takeWhile (isWord unicodeWord) = cfg.name := by
        rw [List.takeWhile_append_of_pos words.2]
        simp [isWord]
      have behind : (cfg.name ++ '=' :: val).dropWhile (isWord unicodeWord) = '=' :: val := by
        rw [List.dropWhile_append_of_pos words.2]
        simp [isWord]
      have starts : stripPrefix "CONFIG_" ('C' :: ("ONFIG_".toList ++ cfg.name ++ '=' :: val)) = some (cfg.name ++ '=' :: val) := by
        simp [stripPrefix]
      simp only [readLine, line, strip_of_ends (by decide) ends, starts, name, behind]
      by_cases empty : val = [] <;> simp [words.1, empty, Option.filter]

/-- The values in the `.config` are those that it was written for, without the empty ones. -/
theorem readConfig_lines {configs : List Config} (words : ∀ cfg ∈ configs, cfg.name ≠ [] ∧ ∀ c ∈ cfg.name, isWord unicodeWord c)
    (ends : ∀ name val, values name = some val → Ends val) (distinct : (configs.map Config.name).Nodup) {start : Values}
    (fresh : ∀ cfg ∈ configs, start cfg.name = none) :
    (∀ cfg ∈ configs, readConfig unicodeWord start (writeConfig configs values) cfg.name = (values cfg.name).filter (· ≠ [])) ∧
      ∀ name, name ∉ configs.map Config.name → readConfig unicodeWord start (writeConfig configs values) name = start name := by
  induction configs generalizing start with
  | nil => exact ⟨by simp, fun _ _ => rfl⟩
  | cons cfg rest ih =>
      rw [List.map_cons, List.nodup_cons] at distinct
      have line := readLine_configLine unicodeWord (words cfg List.mem_cons_self) fun val => ends cfg.name val
      have step : readConfig unicodeWord start (writeConfig (cfg :: rest) values) =
          readConfig unicodeWord (Function.update start cfg.name ((values cfg.name).filter (· ≠ []))) (writeConfig rest values) := by
        rw [writeConfig, List.map_cons, readConfig, line]
        cases (values cfg.name).filter (· ≠ []) with
        | none =>
            have unchanged : Function.update start cfg.name none = start := by
              rw [← fresh cfg List.mem_cons_self, Function.update_eq_self]
            rw [unchanged]
            rfl
        | some val => rfl
      have other {cfg' : Config} (member : cfg' ∈ rest) : cfg'.name ≠ cfg.name := fun same =>
        distinct.1 (same ▸ List.mem_map_of_mem member)
      obtain ⟨read, kept⟩ := @ih (fun cfg' member => words cfg' (List.mem_cons_of_mem cfg member)) distinct.2
        (Function.update start cfg.name ((values cfg.name).filter (· ≠ []))) fun cfg' member => by
          rw [Function.update_of_ne (other member), fresh cfg' (List.mem_cons_of_mem cfg member)]
      rw [step]
      constructor
      · intro cfg' member
        obtain rfl | member := List.mem_cons.1 member
        · rw [kept _ distinct.1, Function.update_self]
        · exact read cfg' member
      · intro name outside
        rw [List.map_cons, List.mem_cons, not_or] at outside
        rw [kept name outside.2, Function.update_of_ne outside.1]

end Written

/-! ## The second run -/

theorem stable_iff_values (symbols : Symbols unicodeWord) (defconfig : Option (List Text)) :
    Stable unicodeWord symbols defconfig ↔ ∀ cfg ∈ symbols.configs,
      resolve unicodeWord symbols (some (generate unicodeWord symbols defconfig).1) cfg.name =
        resolve unicodeWord symbols defconfig cfg.name := by
  constructor
  · exact Stable.values
  · intro values
    have config : writeConfig symbols.configs (resolve unicodeWord symbols (some (generate unicodeWord symbols defconfig).1)) =
        writeConfig symbols.configs (resolve unicodeWord symbols defconfig) := by
      apply List.map_congr_left
      intro cfg member
      rw [configLine, configLine, values cfg member]
    refine ⟨values, ?_⟩
    rw [generate, config]
    rfl

/-- `syncconfig` reproduces what `defconfig` has made exactly where the `.config` is settled. -/
theorem syncconfig_stable_iff (symbols : Symbols unicodeWord) (defconfig : Option (List Text)) :
    Stable unicodeWord symbols defconfig ↔ Settled unicodeWord symbols defconfig := by
  have ends : ∀ name val, resolve unicodeWord symbols defconfig name = some val → Ends val :=
    fun name val => resolve_ends unicodeWord symbols
  have read := (@readConfig_lines unicodeWord _ symbols.configs symbols.words ends symbols.distinct (fun _ => none)
    fun _ _ => rfl).1
  rw [stable_iff_values]
  have second (name : Text) : resolve unicodeWord symbols (some (generate unicodeWord symbols defconfig).1) name =
      fill Config.name (defaultOf unicodeWord) (readConfig unicodeWord (fun _ => none)
        (generate unicodeWord symbols defconfig).1) symbols.configs name := by
    rw [← applyDefaults_eq_fill]
    rfl
  simp only [second]
  apply fill_eq_iff (fun cfg _ _ alike => defaultOf_alike unicodeWord cfg alike) symbols.distinct
  · intro cfg member val set
    have here := read cfg member
    rw [generate, here, Option.filter_eq_some_iff] at set
    exact set.1
  · intro cfg member free
    have here := read cfg member
    rw [generate, here] at free
    cases set : resolve unicodeWord symbols defconfig cfg.name with
    | none => rfl
    | some val => simpa [set, Option.filter] using free

end Words

/-- `config A` with `default y if B`, then `config B` with `default y`. -/
def lateSymbols : Symbols fun _ => false where
  configs := [⟨['A'], some "bool".toList, [(['y'], ['B'])]⟩, ⟨['B'], some "bool".toList, [(['y'], [])]⟩]
  distinct := by decide
  words := by simp [isWord]
  solid := by simp [isSpace]

/-- `A` is offered its default when `B` has none yet, and again when it has. -/
theorem syncconfig_late :
    (generate _ lateSymbols none).1 = ["# CONFIG_A is not set".toList, "CONFIG_B=y".toList] ∧
      (generate _ lateSymbols (some (generate _ lateSymbols none).1)).1 = ["CONFIG_A=y".toList, "CONFIG_B=y".toList] ∧
      ¬ Stable _ lateSymbols none := by
  have first : (generate _ lateSymbols none).1 = ["# CONFIG_A is not set".toList, "CONFIG_B=y".toList] := by
    decide +kernel
  have second : (generate _ lateSymbols (some (generate _ lateSymbols none).1)).1 =
      ["CONFIG_A=y".toList, "CONFIG_B=y".toList] := by decide +kernel
  refine ⟨first, second, fun stable => ?_⟩
  have same := congrArg Prod.fst stable.files
  rw [second, first] at same
  revert same
  decide

end Minus.Scripts.Kconfig

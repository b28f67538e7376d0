import Mathlib.Algebra.Group.Nat.Defs
import EvmJumps.Config.Draft
import EvmJumps.Config.Printer
import EvmJumps.Proofs.Json.Grammar

namespace EvmJumps.Config

open Json

/-- What a member says to the configuration. -/
inductive Setting where
  | cacheCapacity (n : Nat)
  | maxCodeSize (n : Nat)
  | enableCache (b : Bool)
  /-- The member has a key that is not known. -/
  | other
  deriving DecidableEq, Repr

namespace Setting

def field? : Setting → Option Field
  | .cacheCapacity _ => some .cacheCapacity
  | .maxCodeSize _ => some .maxCodeSize
  | .enableCache _ => some .enableCache
  | .other => none

def cacheCapacity? : Setting → Option Nat
  | .cacheCapacity n => some n
  | _ => none

def maxCodeSize? : Setting → Option Nat
  | .maxCodeSize n => some n
  | _ => none

def enableCache? : Setting → Option Bool
  | .enableCache b => some b
  | _ => none

/-- The configuration that settings make, with defaults for what is not set. -/
def config (settings : List Setting) : Config where
  cacheCapacity := (settings.findSome? cacheCapacity?).getD 1024
  maxCodeSize := (settings.findSome? maxCodeSize?).getD 24576
  enableCache := (settings.findSome? enableCache?).getD true

end Setting

/-- The member says this: its key spells the name of the field, and its value is a decimal number
of at most 64 bits or a truth value. A member with another key may have any value. -/
inductive Sets (m : Member) : Setting → Prop
  | cacheCapacity {n : Nat} (key : Spells m.key "cache_capacity".toList) (small : n < 2 ^ 64)
    (value : m.value = Text.decimal n) : Sets m (.cacheCapacity n)
  | maxCodeSize {n : Nat} (key : Spells m.key "max_code_size".toList) (small : n < 2 ^ 64)
    (value : m.value = Text.decimal n) : Sets m (.maxCodeSize n)
  | enableCache {b : Bool} (key : Spells m.key "enable_cache".toList)
    (value : m.value = boolText b) : Sets m (.enableCache b)
  | other {name : List Char} (key : Spells m.key name) (unknown : ∀ f : Field, name ≠ f.name.toList)
    (value : Written .value m.value) : Sets m .other

/-- Members with commas between them, and what they say. -/
inductive Members : List Char → List Setting → Prop
  | last {m : Member} {setting : Setting} (spaced : m.Spaced) (sets : Sets m setting) :
    Members m.text [setting]
  | more {m : Member} {setting : Setting} {s : List Char} {settings : List Setting}
    (spaced : m.Spaced) (sets : Sets m setting) (others : Members s settings) :
    Members (m.text ++ ',' :: s) (setting :: settings)

/-- The text of an object, and what its members say. -/
inductive ObjectText : List Char → List Setting → Prop
  | empty {w w' w'' : List Char} (before : Spaces w) (inside : Spaces w') (behind : Spaces w'') :
    ObjectText (w ++ '\x7b' :: (w' ++ '\x7d' :: w'')) []
  | members {w s w' : List Char} {settings : List Setting} (before : Spaces w)
    (members : Members s settings) (behind : Spaces w') :
    ObjectText (w ++ '\x7b' :: (s ++ '\x7d' :: w')) settings

namespace Draft

/-- Takes a setting, unless its field was given before. -/
def give (d : Draft) : Setting → Draft
  | .cacheCapacity n => { d with cacheCapacity := d.cacheCapacity.or (some n) }
  | .maxCodeSize n => { d with maxCodeSize := d.maxCodeSize.or (some n) }
  | .enableCache b => { d with enableCache := d.enableCache.or (some b) }
  | .other => d

theorem has_give (d : Draft) (setting : Setting) (f : Field) :
    (d.give setting).has f = (d.has f || setting.field? == some f) := by
  cases setting <;> cases f <;> simp [give, has, Setting.field?]

theorem foldl_give (settings : List Setting) (d : Draft) :
    settings.foldl give d =
      { cacheCapacity := d.cacheCapacity.or (settings.findSome? Setting.cacheCapacity?)
        maxCodeSize := d.maxCodeSize.or (settings.findSome? Setting.maxCodeSize?)
        enableCache := d.enableCache.or (settings.findSome? Setting.enableCache?) } := by
  induction settings generalizing d with
  | nil => simp
  | cons setting settings ih =>
    rw [List.foldl_cons, ih]
    cases setting <;> simp [give, Setting.cacheCapacity?, Setting.maxCodeSize?,
      Setting.enableCache?, List.findSome?_cons]

theorem config_foldl_give (settings : List Setting) :
    (settings.foldl give {}).config = Setting.config settings := by
  rw [foldl_give]
  rfl

/-- The fields that are to be set are not repeated, and were not given before. -/
structure Free (d : Draft) (settings : List Setting) : Prop where
  once : (settings.filterMap Setting.field?).Nodup
  ungiven : ∀ f ∈ settings.filterMap Setting.field?, d.has f = false

theorem Free.first {d : Draft} {setting : Setting} {settings : List Setting}
    (free : d.Free (setting :: settings)) : ∀ f, setting.field? = some f → d.has f = false := by
  intro f field
  apply free.ungiven
  rw [List.filterMap_cons, field]
  exact List.mem_cons_self

theorem Free.others {d : Draft} {setting : Setting} {settings : List Setting}
    (free : d.Free (setting :: settings)) : (d.give setting).Free settings := by
  obtain ⟨once, ungiven⟩ := free
  rw [List.filterMap_cons] at once ungiven
  cases field : setting.field? with
  | none =>
    rw [field] at once ungiven
    refine ⟨once, ?_⟩
    intro f member
    rw [has_give, ungiven f member, field]
    rfl
  | some g =>
    rw [field] at once ungiven
    obtain ⟨fresh, once⟩ := List.nodup_cons.mp once
    refine ⟨once, ?_⟩
    intro f member
    have other : g ≠ f := by
      rintro rfl
      exact fresh member
    rw [has_give, ungiven f (List.mem_cons_of_mem g member), field]
    simpa using other

end Draft

end EvmJumps.Config

import Mathlib.Tactic.ByContra
import Mathlib.Tactic.FinCases
import AvroSchema.Proofs.Toml.KeyValueLines

/-!
# Saved Settings Load Back

The text of settings is a document of key-value lines, so it is read as the table of the settings,
and what is absent there takes the default that it had. Only a nesting depth beyond 64-bit integers
has no text; saving fails then, before the file is touched.

* `Config.ofToml_of_toToml`: the text of settings stands for them.
* `ConfigFile.saving_eq`: saving step by step, with the file as a state.
* `ConfigFile.load_of_save`: what is saved is loaded, and what becomes of the file otherwise.
-/

namespace AvroSchema

namespace Config

open Toml.Reader (Entry)

/-- The entries of settings in their order. -/
def entries (c : Config) : List Entry :=
  ⟨"key_suffix", Toml.quote c.keySuffix.toList, .string c.keySuffix⟩ ::
    ⟨"max_nesting_depth", Nat.toDigits 10 c.maxNestingDepth, .integer c.maxNestingDepth⟩ ::
    (c.defaultNamespace.map fun space =>
      ⟨"default_namespace", Toml.quote space.toList, .string space⟩).toList

theorem toToml_eq {c : Config} (h : c.maxNestingDepth < 0x8000000000000000) :
    c.toToml = .ok (String.ofList (c.entries.flatMap Entry.line)) := by
  unfold toToml
  rw [if_pos h]
  cases hspace : c.defaultNamespace with
  | none => simp [entries, Entry.line, hspace]
  | some space => simp [entries, Entry.line, hspace]

theorem nodup_key_entries (c : Config) : (c.entries.map Entry.key).Nodup := by
  cases hspace : c.defaultNamespace with
  | none => simp [entries, hspace]
  | some space => simp [entries, hspace]

theorem readable_of_mem_entries {c : Config} (h : c.maxNestingDepth < 0x8000000000000000)
    {e : Entry} (he : e ∈ c.entries) : e.Readable := by
  have hbare : ∀ key ∈ ["key_suffix", "max_nesting_depth", "default_namespace"],
      Toml.Reader.IsBare key := by
    intro key hkey
    fin_cases hkey <;> exact ⟨by decide, List.all_eq_true.1 (by decide)⟩
  simp only [entries, List.mem_cons, Option.mem_toList, Option.map_eq_some_iff] at he
  rcases he with rfl | rfl | ⟨space, -, rfl⟩
  · exact ⟨hbare _ (by simp), Toml.Reader.standsOnLine_quote _⟩
  · exact ⟨hbare _ (by simp), Toml.Reader.standsOnLine_toDigits h⟩
  · exact ⟨hbare _ (by simp), Toml.Reader.standsOnLine_quote _⟩

/-- The text of settings stands for them. -/
theorem ofToml_of_toToml {c : Config} {text : String} (h : c.toToml = .ok text) :
    ofToml text = .ok c := by
  have hfits : c.maxNestingDepth < 0x8000000000000000 := by
    by_contra hnot
    rw [toToml, if_neg hnot] at h
    cases h
  rw [toToml_eq hfits] at h
  have hparse := Toml.parse_lines (fun e => readable_of_mem_entries hfits) c.nodup_key_entries
  rw [Except.ok.inj h] at hparse
  have hdepth : natural? (.integer c.maxNestingDepth) = some c.maxNestingDepth := by
    simp [natural?, Toml.integer?]
  obtain ⟨keySuffix, maxNestingDepth, defaultNamespace⟩ := c
  rw [ofToml, hparse]
  cases defaultNamespace with
  | none =>
    simp [entries, setting, List.lookup_cons, Toml.string?, hdepth, bind, Except.bind, pure,
      Except.pure]
  | some space =>
    simp [entries, setting, List.lookup_cons, Toml.string?, hdepth, bind, Except.bind, pure,
      Except.pure]

end Config

namespace ConfigFile

/-- Writes a text to the file, whose directory has to exist. -/
def write (text : String) : EStateM ConfigError ConfigFile Unit := do
  if (← get).hasDirectory then modify fun file => { file with text := some text } else throw .io

/-- Saves settings in the file that is the state: the text is made before anything is written. -/
def saving (c : Config) : EStateM ConfigError ConfigFile Unit := do
  match c.toToml with
  | .ok text => write text
  | .error e => throw e

/-- What saving gives is the state that is left, and its failures leave the file as it was. -/
theorem saving_eq (file : ConfigFile) (c : Config) :
    saving c file =
      match file.save c with
      | .ok saved => .ok () saved
      | .error e => .error e file := by
  unfold saving save
  cases c.toToml with
  | error e => rfl
  | ok text =>
    obtain ⟨hasDirectory, before⟩ := file
    cases hasDirectory <;> rfl

/-- Settings that were saved in a file are loaded from it. They can be saved in every file whose
directory exists, unless their nesting depth is no 64-bit integer; then nothing is written. -/
theorem load_of_save (file : ConfigFile) (c : Config) :
    (∀ saved, file.save c = .ok saved → saved.load = .ok c) ∧
    ((∃ saved, file.save c = .ok saved) ↔
      c.maxNestingDepth ≤ 0x7FFFFFFFFFFFFFFF ∧ file.hasDirectory = true) ∧
    (0x7FFFFFFFFFFFFFFF < c.maxNestingDepth →
      file.save c = .error .serialize ∧ saving c file = .error .serialize file) := by
  refine ⟨?loads, ?succeeds, ?refused⟩
  case loads =>
    intro saved h
    unfold save at h
    split at h
    · cases h
    · next text htext =>
      split at h
      · cases h
        exact Config.ofToml_of_toToml htext
      · cases h
  case succeeds =>
    by_cases hfits : c.maxNestingDepth < 0x8000000000000000
    · have hle : c.maxNestingDepth ≤ 0x7FFFFFFFFFFFFFFF := by omega
      cases hdir : file.hasDirectory <;> simp [save, Config.toToml_eq hfits, hdir, hle]
    · have hle : ¬ c.maxNestingDepth ≤ 0x7FFFFFFFFFFFFFFF := by omega
      simp [save, Config.toToml, hfits, hle]
  case refused =>
    intro h
    have hsave : file.save c = .error .serialize := by
      rw [save, Config.toToml, if_neg (by omega)]
    exact ⟨hsave, by rw [saving_eq, hsave]⟩

-- strings on several lines, with quotes next to the closing ones, and on one line with escapes
example :
    let c : Config := ⟨"\n'''\"\"", 7, some "a'b\r\\\"c\""⟩
    c.toToml.toOption.bind (fun text => (Config.ofToml text).toOption) = some c := by
  decide +kernel

end ConfigFile

end AvroSchema

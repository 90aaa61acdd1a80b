import BancuhDns.Decisions.Redirects
import BancuhDns.Handler.Replies

/-!
# Names that are rewritten to themselves

An override for a wildcard may have its alias below the wildcard: all names of a search
engine, say, are to be answered by one of its hosts. The alias then matches the wildcard
as well, and unless something more specific intervenes it is rewritten to itself – the
handler answers with a record that makes the name an alias of the name.

What the engine says of a text, whatever text it is, is said by one of the overrides, the
one that decides for it (`BancuhDns.Decides`): the last of those with the most specific
pattern. So no text is rewritten to itself exactly when no override decides for its own
alias (`BancuhDns.getRedirect_self_iff`), which can be seen from the overrides alone.
-/

namespace BancuhDns

variable {σ : Type} {kv : RocksDB σ} {pairs : List CName} {n a : Text}

/-- **Overrides none of which decides for its own alias.** -/
def NoneForItself (pairs : List CName) : Prop :=
  ∀ c ∈ pairs, ¬Decides pairs (normalizeName c.aliasName.val) c

/-- A configuration with one file of overrides. -/
def oneOverrides : Config := ⟨[], [], [⟨.cname, .file ⟨[]⟩⟩]⟩

/-- No override of this one decides for its own alias. -/
theorem noneForItself_bing : NoneForItself ((AdblockCompiler.fromConfig oneOverrides).rewritten
    .lenient (fileSources "www.bing.com CNAME strict.bing.com.".toList)) := by
  have hpairs : (AdblockCompiler.fromConfig oneOverrides).rewritten .lenient
      (fileSources "www.bing.com CNAME strict.bing.com.".toList) =
        [⟨⟨"www.bing.com".toList⟩, ⟨"strict.bing.com".toList⟩⟩] := by decide
  rw [hpairs]
  rintro c hc ⟨l, r, -, hmem, -⟩
  obtain rfl := List.mem_singleton.mp hc
  have hnot : normalizeName "www.bing.com".toList ∉
      keys (normalizeName "strict.bing.com".toList) := by decide
  exact hnot hmem

end BancuhDns

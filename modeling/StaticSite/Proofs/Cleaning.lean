import Mathlib
import StaticSite.Build.Basic
import StaticSite.Proofs.Loading
import StaticSite.Proofs.Listing
import StaticSite.Proofs.Updates

/-! Cleaning removes the destination and nothing else, wherever the removal stops. That the source
survives rests on how paths are resolved when a configuration is loaded: a destination that is there
is compared by its real path, and one that is not there is not removed. -/
namespace StaticSite

namespace FileSystem

variable {fs mid fs' : FileSystem} {top p q : Place} {n : Node} {t : Nat}

/-- That nothing was added, and nothing was taken away but what is in a directory. -/
structure Thinned (top : Place) (fs fs' : FileSystem) : Prop where
  wellFormed : fs'.WellFormed
  outside : ∀ p, (top <+: p → p = top) → fs'.at? p = fs.at? p
  kept : ∀ p n, fs'.at? p = some n → fs.at? p = some n
  stamp : ∀ p, ¬top <+: p → fs'.stamp? p = fs.stamp? p

theorem Thinned.refl (h : fs.WellFormed) : Thinned top fs fs :=
  ⟨h, fun _ _ => rfl, fun _ _ hn => hn, fun _ _ => rfl⟩

theorem Thinned.trans (h : Thinned top fs mid) (h' : Thinned top mid fs') : Thinned top fs fs' :=
  ⟨h'.wellFormed, fun p hp => (h'.outside p hp).trans (h.outside p hp),
    fun p n hn => h.kept p n (h'.kept p n hn), fun p hp => (h'.stamp p hp).trans (h.stamp p hp)⟩

theorem Thinned.tick (h : Thinned top fs fs') : Thinned top fs fs'.tick :=
  ⟨h.wellFormed.tick, h.outside, h.kept, h.stamp⟩

end FileSystem

namespace Builder

open FileSystem

variable {fs : FileSystem} {c : Config} {cli : CommandLine}

def linkedSite : FileSystem where
  nodes := [(["w".toList], .directory 0), (["w".toList, "src".toList], .directory 0),
    (["w".toList, "src".toList, "a.md".toList], .file [] 1),
    (["w".toList, "src".toList, "old".toList], .directory 0),
    (["w".toList, "src".toList, "old".toList, "a.html".toList], .file [] 2),
    (["w".toList, "out".toList], .link "src/old".toList)]
  here := ["w".toList]
  clock := 5

def linkedSiteConfig : Config where
  root := some (.ofString "/w")
  configPath := .ofString "/w/_config.toml"
  source := .ofString "/w/src"
  destination := .ofString "/w/src/old"
  layouts := .ofString "/w/src/_layouts"
  includes := .ofString "/w/src/_includes"

theorem linkedSite_load :
    Config.load linkedSite
      ⟨none, .ofString "_config.toml", some (.ofString "src"), some (.ofString "out"),
        .build true⟩ =
      .ok linkedSiteConfig := by
  cbv

end Builder
end StaticSite

import Stubsmith.Hierarchy.Resolver

namespace Stubsmith.Registry

/-- The slots of the registered dependencies of a descriptor, as listed. -/
def dependencySlots (r : Registry) (d : Descriptor) : List Nat :=
  d.dependencies.filterMap r.slot?

/-- The slots, each with those that it depends on for successors. -/
def graph (r : Registry) : Graph :=
  ⟨r.descriptors.map r.dependencySlots⟩

/-- The class-likes by namespace in the order in which a resolver of bounded depth writes them. -/
def groupsWithin (r : Registry) (depth : Nat) : List Group :=
  let slots := r.descriptors.map some
  ((List.range r.size).foldl (Resolver.visit r.graph depth) (.start slots)).placement.groups

/-- A class-like follows what it depends on, as far as that is registered. Those that depend on one
another stand together, in the order of registration. -/
def groups (r : Registry) : List Group :=
  r.groupsWithin r.size

end Stubsmith.Registry

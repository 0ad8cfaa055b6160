import PackBindings.Main
import PackBindings.Manifest
import PackBindings.Proofs.Kotlin.FreshNames
import PackBindings.Proofs.Kotlin.NameCharacters
import PackBindings.Proofs.Kotlin.Literals
import PackBindings.Proofs.Kotlin.Objects
import PackBindings.Proofs.Bindings.Slots
import PackBindings.Proofs.Bindings.Layout
import PackBindings.Proofs.Bindings.MemberNames
import PackBindings.Proofs.Bindings.Overloads
import PackBindings.Proofs.Bindings.Units
import PackBindings.Proofs.Bindings.RootNames
import PackBindings.Proofs.Bindings.Redeclaration
import PackBindings.Proofs.Component.Directories
import PackBindings.Proofs.Bindings.Mirror
import PackBindings.Proofs.Resources.Families
import PackBindings.Proofs.Bindings.Shelves
import PackBindings.Proofs.Bindings.Sharing
import PackBindings.Proofs.Settings.Packages
import PackBindings.Proofs.Bindings.FilePaths
import PackBindings.Proofs.Files.Growth
import PackBindings.Proofs.Files.SpelledPaths
import PackBindings.Proofs.Output.Written
import PackBindings.Proofs.Output.Collisions
import PackBindings.Proofs.Script.Seams
import PackBindings.Proofs.Bindings.Constants
import PackBindings.Proofs.Bindings.Shadowing
import PackBindings.Proofs.Pack.ListingOrder
import PackBindings.Proofs.Script.LogicalLines
import PackBindings.Proofs.Resources.Partition
import PackBindings.Proofs.Pack.ComponentFiles
import PackBindings.Proofs.Pack.KindByKind
import PackBindings.Proofs.Pack.NamespaceFiles
import PackBindings.Proofs.Kotlin.Styles
import PackBindings.Proofs.Kotlin.Lines
import PackBindings.Proofs.Script.Names
import PackBindings.Proofs.Pack.ScriptNames
import PackBindings.Proofs.Bindings.WrittenMembers
import PackBindings.Proofs.Bindings.LineBreaks
import PackBindings.Proofs.Kotlin.Identifiers
import PackBindings.Proofs.Bindings.DeclaredNames
import PackBindings.Proofs.Bindings.UnitLayout
import PackBindings.Proofs.Bindings.NewNamespace
import PackBindings.Proofs.Pack.Agreement
import PackBindings.Proofs.Bindings.PackageHeaders
import PackBindings.Proofs.Files.Reach
import PackBindings.Proofs.Pack.RunFailures
import PackBindings.Proofs.Archive.Reach
import PackBindings.Proofs.Pack.WrappedPacks
import PackBindings.Proofs.Kotlin.Reading
import PackBindings.Proofs.Bindings.ReadableMembers
import PackBindings.Proofs.Script.PlainText
import PackBindings.Proofs.Text.LineSearch
import PackBindings.Proofs.Script.ObjectivePattern
import PackBindings.Proofs.Script.StorageReferences
import PackBindings.Proofs.Script.StoragePattern
import PackBindings.Proofs.Kotlin.Allocation
import PackBindings.Proofs.Bindings.AccessorNames
import PackBindings.Proofs.Bindings.ScriptFunctions
import PackBindings.Proofs.Script.ParameterPattern
import PackBindings.Proofs.Kotlin.Scanning
import PackBindings.Proofs.Pack.Locations
import PackBindings.Proofs.Kotlin.Meanings
import PackBindings.Proofs.Bindings.ImportTable
import PackBindings.Proofs.Bindings.ClassTexts
import PackBindings.Proofs.Bindings.Resolution

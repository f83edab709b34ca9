import TadsReference.Text.Blank
import TadsReference.Text.Search
import TadsReference.Text.Alphanumeric
import TadsReference.Text.WordCharacter
import TadsReference.Text.LowerCase
import TadsReference.Text.Lines
import TadsReference.Text.Utf8
import TadsReference.Identifier
import TadsReference.Macro.Expansion
import TadsReference.Source.Order
import TadsReference.Reader.Basic
import TadsReference.Entry.BaseList
import TadsReference.Entry.GrammarRule
import TadsReference.Entry.BlockComment
import TadsReference.Entry.MessageCall
import TadsReference.Entry.HeaderLine
import TadsReference.Entry.OfLine
import TadsReference.Entry.OfFile
import TadsReference.Graph.Record
import TadsReference.Graph.Walk
import TadsReference.Graph.VisibleMacros
import TadsReference.Graph.Link
import TadsReference.Page.Dump
import TadsReference.Page.Format
import TadsReference.Graph.Build
import TadsReference.Storage.FileTree
import TadsReference.Glob.Search
import TadsReference.CommandLine.Run
import TadsReference.Main
import TadsReference.Proofs.Graph.Views
import TadsReference.Proofs.Graph.Recording
import TadsReference.Proofs.Graph.Unlinked
import TadsReference.Proofs.Graph.DisplayOrder
import TadsReference.Proofs.Graph.Passes
import TadsReference.Proofs.Graph.Merging
import TadsReference.Proofs.Graph.Modifications
import TadsReference.Proofs.Graph.Members
import TadsReference.Proofs.Graph.Bases
import TadsReference.Proofs.Graph.Sessions
import TadsReference.Proofs.Graph.Overrides
import TadsReference.Proofs.Source.Placement
import TadsReference.Proofs.Source.ReadingOrder
import TadsReference.Proofs.Graph.Listings
import TadsReference.Proofs.Graph.PageNames
import TadsReference.Proofs.Text.Identifiers
import TadsReference.Proofs.Macro.Unfolding
import TadsReference.Proofs.Reader.Accounting
import TadsReference.Proofs.Entry.BlockNames
import TadsReference.Proofs.Graph.Citations
import TadsReference.Proofs.Graph.Collections
import TadsReference.Proofs.Graph.Coherence
import TadsReference.Proofs.Page.Stems
import TadsReference.Proofs.Page.MarkdownLinks
import TadsReference.Proofs.Page.JsonReferences
import TadsReference.Proofs.Page.Sites
import TadsReference.Proofs.Graph.Filing
import TadsReference.Proofs.Graph.Catalogue
import TadsReference.Proofs.Graph.Skeletons
import TadsReference.Proofs.Graph.Holdings
import TadsReference.Proofs.Graph.References
import TadsReference.Proofs.Graph.Roles
import TadsReference.Proofs.Graph.Scopes
import TadsReference.Proofs.Text.Decoding
import TadsReference.Proofs.Reader.Truncation
import TadsReference.Proofs.Entry.Recognisers
import TadsReference.Proofs.Entry.CutShort
import TadsReference.Proofs.Graph.QuietEnds
import TadsReference.Proofs.Graph.Additions
import TadsReference.Proofs.Graph.Owners
import TadsReference.Proofs.Graph.Productions
import TadsReference.Proofs.Graph.Gathering
import TadsReference.Proofs.Entry.InStep
import TadsReference.Proofs.Entry.LanguageCalls
import TadsReference.Proofs.Graph.Accounts
import TadsReference.Proofs.Macro.Unused
import TadsReference.Proofs.Entry.UnusedMacros
import TadsReference.Proofs.Graph.Transparency
import TadsReference.Proofs.Graph.LoneLines
import TadsReference.Proofs.Graph.Heirs
import TadsReference.Proofs.Graph.Finishing
import TadsReference.Proofs.Graph.InheritedViews
import TadsReference.Proofs.Graph.InOrder
import TadsReference.Proofs.Graph.Relinking
import TadsReference.Proofs.Graph.LinkFrame
import TadsReference.Proofs.Text.DecodedLines
import TadsReference.Proofs.Reader.HandedOut
import TadsReference.Proofs.Reader.Origins
import TadsReference.Proofs.Entry.Survival
import TadsReference.Proofs.Entry.Recorded
import TadsReference.Proofs.Entry.Events
import TadsReference.Proofs.Graph.Histories
import TadsReference.Proofs.Graph.Locations
import TadsReference.Proofs.Graph.Descriptions
import TadsReference.Proofs.Storage.Writing
import TadsReference.Proofs.Storage.Below
import TadsReference.Proofs.Page.SitePaths
import TadsReference.Proofs.Page.SharedPaths
import TadsReference.Proofs.Graph.DepthFirst
import TadsReference.Proofs.Graph.InheritedMembers
import TadsReference.Proofs.Graph.Visibility
import TadsReference.Proofs.Macro.ArgumentLists
import TadsReference.Proofs.Macro.NormalForms
import TadsReference.Proofs.Reader.LookAhead
import TadsReference.Proofs.Page.Trees
import TadsReference.Proofs.Text.Tokens
import TadsReference.Proofs.Entry.FunctionBodies
import TadsReference.Proofs.Entry.Redefinitions
import TadsReference.Proofs.Page.DeclarationTexts
import TadsReference.Proofs.Entry.ParameterLists
import TadsReference.Proofs.Text.IdentifierPlaces
import TadsReference.Proofs.Text.IdentifierSearch
import TadsReference.Proofs.Text.SpacedTokens
import TadsReference.Proofs.Reader.GatheredLines
import TadsReference.Proofs.Entry.SpannedLists
import TadsReference.Proofs.Text.Words
import TadsReference.Proofs.Entry.CommentTexts
import TadsReference.Proofs.Entry.MacroTexts
import TadsReference.Proofs.Macro.AppliedOperators
import TadsReference.Proofs.Macro.Arguments
import TadsReference.Proofs.Entry.RuleEnds
import TadsReference.Proofs.Entry.MessageCalls
import TadsReference.Proofs.Entry.OneLineComments
import TadsReference.Proofs.Source.SettledOrder
import TadsReference.Proofs.Text.TokenPlaces
import TadsReference.Proofs.Macro.PastedTexts
import TadsReference.Proofs.Macro.Substitution

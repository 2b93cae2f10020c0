import OverrideAudit.Main
import OverrideAudit.Proofs.Text.Pieces
import OverrideAudit.Proofs.Version.Grammar
import OverrideAudit.Proofs.Version.TotalOrder
import OverrideAudit.Proofs.Version.NumericOrder
import OverrideAudit.Proofs.UseFlag.LastChange
import OverrideAudit.Proofs.Cpv.Split
import OverrideAudit.Proofs.Atom.RoundTrip
import OverrideAudit.Proofs.Cpv.RoundTrip
import OverrideAudit.Proofs.Issue.LastDirective
import OverrideAudit.Proofs.Report.Groups
import OverrideAudit.Proofs.Sorted
import OverrideAudit.Proofs.Database.Selection
import OverrideAudit.Proofs.Masking.Additions
import OverrideAudit.Proofs.Database.History
import OverrideAudit.Proofs.Keyword.Acceptance
import OverrideAudit.Proofs.Override.FolderRecords
import OverrideAudit.Proofs.Override.SkipDirectives
import OverrideAudit.Proofs.Audit.Run
import OverrideAudit.Proofs.Audit.SkipLocality
import OverrideAudit.Proofs.Audit.MaskAdvice
import OverrideAudit.Proofs.Audit.CategorySelection
import OverrideAudit.Proofs.Audit.KeywordEffect
import OverrideAudit.Proofs.Audit.KeywordAdvice
import OverrideAudit.Proofs.Audit.Advisories
import OverrideAudit.Proofs.CommandLine.ExitCode
import OverrideAudit.Proofs.FileTree.Canonical
import OverrideAudit.Proofs.Masking.ProfileSearch
import OverrideAudit.Proofs.Masking.ProfileDepth
import OverrideAudit.Proofs.Masking.ProfileOrder
import OverrideAudit.Proofs.Audit.UnknownFlags
import OverrideAudit.Proofs.Audit.RedundantFlags
import OverrideAudit.Proofs.Database.VersionIntervals
import OverrideAudit.Proofs.Atom.EqualAtoms
import OverrideAudit.Proofs.Masking.MaskLines
import OverrideAudit.Proofs.Keyword.AcceptedList
import OverrideAudit.Proofs.Database.TestingBranch
import OverrideAudit.Proofs.Masking.TestingReason
import OverrideAudit.Proofs.Version.Language
import OverrideAudit.Proofs.Atom.BareAtom
import OverrideAudit.Proofs.Text.LowerCase
import OverrideAudit.Proofs.UseFlag.Groups
import OverrideAudit.Proofs.Text.Lines
import OverrideAudit.Proofs.Override.CommentLines
import OverrideAudit.Proofs.Variables.Statements
import OverrideAudit.Proofs.Variables.Assignment
import OverrideAudit.Proofs.Variables.LiteralValue
import OverrideAudit.Proofs.Variables.ScannedValue
import OverrideAudit.Proofs.Variables.Expansion
import OverrideAudit.Proofs.Variables.SettingFiles
import OverrideAudit.Proofs.Audit.Classification
